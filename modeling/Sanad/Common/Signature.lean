import Mathlib.Data.Set.Basic
import Sanad.Common.Bytes

/-! # Signature schemes

A signature scheme as the three functions a program calls. `Ideal` is the symbolic reading of one: a
signature is a term that determines its key and its message, and nothing else verifies. Results
about programs that only call `verify` need no such assumption.
-/

/-- A signature scheme over byte strings. -/
structure SignatureScheme where
  /-- The public key of a private key. -/
  publicKey : Bytes → Bytes
  sign : Bytes → Bytes → Bytes
  verify : Bytes → Bytes → Bytes → Bool

namespace SignatureScheme

/-- A symbolic signature scheme. -/
structure Ideal (S : SignatureScheme) : Prop where
  /-- What verifies under a public key was signed with a private key of it. -/
  verify_iff : ∀ pub msg sig,
    S.verify pub msg sig = true ↔ ∃ priv, S.publicKey priv = pub ∧ S.sign priv msg = sig
  /-- A signature determines the key pair and the message. -/
  sign_injective : ∀ {priv priv' msg msg'}, S.sign priv msg = S.sign priv' msg' →
    S.publicKey priv = S.publicKey priv' ∧ msg = msg'
  /-- Signing is deterministic: the private keys of one public key sign alike. -/
  sign_congr : ∀ {priv priv'}, S.publicKey priv = S.publicKey priv' →
    ∀ msg, S.sign priv msg = S.sign priv' msg

/-- What an attacker who holds some private keys and was given some signatures can put where a
signature is expected. -/
inductive Obtainable (S : SignatureScheme) (keys given : Set Bytes) : Bytes → Prop where
  | own {priv : Bytes} (hpriv : priv ∈ keys) (msg : Bytes) : Obtainable S keys given (S.sign priv msg)
  | given {sig : Bytes} (hsig : sig ∈ given) : Obtainable S keys given sig
  /-- A string that is nobody's signature. -/
  | other {sig : Bytes} (hsig : ∀ priv msg, S.sign priv msg ≠ sig) : Obtainable S keys given sig

/-- What verifies under a key that the attacker does not hold was given to it. -/
theorem Obtainable.mem_given {S : SignatureScheme} (hS : S.Ideal) {keys given : Set Bytes}
    {pub msg sig : Bytes} (h : S.Obtainable keys given sig) (hverify : S.verify pub msg sig = true)
    (hpub : ∀ priv ∈ keys, S.publicKey priv ≠ pub) : sig ∈ given := by
  obtain ⟨signer, hsigner, hsign⟩ := (hS.verify_iff pub msg sig).mp hverify
  cases h with
  | own hpriv msg' =>
      obtain ⟨hkey, -⟩ := hS.sign_injective hsign
      exact absurd (hkey.symm.trans hsigner) (hpub _ hpriv)
  | given hsig => exact hsig
  | other hsig => exact absurd hsign (hsig signer msg)

/-- The term for the signature of a message under a public key: the key with its length, then the
message. -/
def term (pub msg : Bytes) : Bytes := List.replicate pub.length 1 ++ 0 :: (pub ++ msg)

/-- The free signature scheme, whose signatures are terms. A private key ends with its public key,
as in Ed25519, after a seed of 32 bytes. -/
def free : SignatureScheme where
  publicKey priv := priv.drop 32
  sign priv msg := term (priv.drop 32) msg
  verify pub msg sig := sig = term pub msg

theorem term_injective {pub pub' msg msg' : Bytes} (h : term pub msg = term pub' msg') :
    pub = pub' ∧ msg = msg' := by
  have hlen : ∀ {m n : ℕ} {a b : Bytes},
      List.replicate m (1 : UInt8) ++ 0 :: a = List.replicate n 1 ++ 0 :: b → m = n ∧ a = b := by
    intro m
    induction m with
    | zero =>
        intro n a b hab
        cases n with
        | zero => exact ⟨rfl, (List.cons.inj hab).2⟩
        | succ n => cases hab
    | succ m ih =>
        intro n a b hab
        cases n with
        | zero => cases hab
        | succ n =>
            obtain ⟨hmn, hrest⟩ := ih (List.cons.inj hab).2
            exact ⟨congrArg (· + 1) hmn, hrest⟩
  obtain ⟨hlength, happ⟩ := hlen h
  exact List.append_inj happ hlength

theorem ideal_free : free.Ideal where
  verify_iff pub msg sig := by
    constructor
    · intro h
      refine ⟨List.replicate 32 0 ++ pub, List.drop_left' (by simp), ?_⟩
      have hpub : (List.replicate 32 0 ++ pub).drop 32 = pub := List.drop_left' (by simp)
      simp only [free, decide_eq_true_eq] at h ⊢
      rw [hpub, h]
    · rintro ⟨priv, rfl, rfl⟩
      simp [free]
  sign_injective h := term_injective h
  sign_congr h msg := congrArg (fun pub => term pub msg) h

theorem term_ne_nil (pub msg : Bytes) : term pub msg ≠ [] := by
  simp [term]

/-- The free signature scheme of a world in which only the messages of the log were signed, each by
the owner of the public key beside it. -/
def logged (log : List (Bytes × Bytes)) : SignatureScheme where
  publicKey := free.publicKey
  sign := free.sign
  verify pub msg sig := free.verify pub msg sig && decide ((pub, msg) ∈ log)

theorem verify_logged {log : List (Bytes × Bytes)} {pub msg sig : Bytes} :
    (logged log).verify pub msg sig = true ↔ sig = term pub msg ∧ (pub, msg) ∈ log := by
  simp [logged, free]

end SignatureScheme
