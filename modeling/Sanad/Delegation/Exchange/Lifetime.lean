import Sanad.Delegation.Exchange.Revocation

/-! # The lifetime of exchanged tokens

A token is valid for the authority's TTL from the moment it is issued. `Verify` looks at that expiry
only: neither at the expiry of the grant, which chains and capabilities are held to, nor at the
expiry of the token it was exchanged from.
-/

namespace Sanad.Delegation

/-- The token t was obtained from u by exchanges, at least one. -/
inductive Before (s : ExchangeState) (u : Token) : Token → Prop where
  | parent {t : Token} (h : (some u, t) ∈ s.issued) : Before s u t
  | exchange {p t : Token} (h : Before s u p) (hissued : (some p, t) ∈ s.issued) : Before s u t

/-- The time is before the expiry of the token's grant, if it has one. -/
def Token.WithinGrant (t : Token) (now : ℤ) : Prop :=
  t.grant.notAfter ≠ 0 → now < t.grant.notAfter

/-- A token is accepted only as long as its grant and everything it was obtained from last. -/
def NeverExtends (S : SignatureScheme) (s : ExchangeState) : Prop :=
  ∀ parent t, (parent, t) ∈ s.issued → ∀ now, s.authority.verify S t now = .ok () →
    t.WithinGrant now ∧ ∀ u, Before s u t → (u.notAfter ≠ 0 → now < u.notAfter) ∧ u.WithinGrant now

/-- A token that expires at the given time lasts no longer than its grant. -/
def fitsGrant (expiry : ℤ) (g : Grant) : Bool := expiry ≠ 0 ∧ (g.notAfter = 0 ∨ expiry ≤ g.notAfter)

/-- A token is issued for no longer than its grant and the token it is exchanged from, which is one of
the authority's. -/
def inTime (s : ExchangeState) : ExchangeEvent → Bool
  | .issueRoot _ _ g _ now => fitsGrant (now + s.authority.ttl) g
  | .issue i _ now =>
    match s.pending[i]? with
    | some x => fitsGrant (now + s.authority.ttl) x.narrower ∧
        now + s.authority.ttl ≤ x.parent.notAfter ∧ x.parent ∈ s.issued.map Prod.snd
    | none => true
  | _ => true

/-- What is issued in time: the expiries of the tokens are nested. -/
structure Nested (s : ExchangeState) : Prop where
  grant : ∀ parent t, (parent, t) ∈ s.issued → fitsGrant t.notAfter t.grant = true
  parent : ∀ p t, (some p, t) ∈ s.issued → t.notAfter ≤ p.notAfter ∧ p ∈ s.issued.map Prod.snd

section

variable {S : SignatureScheme} {s s' : ExchangeState}

theorem Nested.add (hs : Nested s) {parent : Option Token} {t : Token}
    (hgrant : fitsGrant t.notAfter t.grant = true)
    (hparent : ∀ p ∈ parent, t.notAfter ≤ p.notAfter ∧ p ∈ s.issued.map Prod.snd) :
    Nested (s.add parent t) where
  grant p t' hmem := by
    rcases List.mem_cons.mp hmem with heq | hmem
    · cases heq
      exact hgrant
    · exact hs.grant p t' hmem
  parent p t' hmem := by
    rcases List.mem_cons.mp hmem with heq | hmem
    · cases heq
      obtain ⟨hle, hissued⟩ := hparent p rfl
      exact ⟨hle, List.mem_cons_of_mem _ hissued⟩
    · obtain ⟨hle, hissued⟩ := hs.parent p t' hmem
      exact ⟨hle, List.mem_cons_of_mem _ hissued⟩

theorem Nested.step {e : ExchangeEvent} (hs : Nested s) (hstep : ExchangeStep S s e s')
    (htime : inTime s e = true) : Nested s' := by
  cases hstep with
  | issueRoot principal subject g id now => exact hs.add htime (by simp)
  | @issue i x hx id now =>
      simp only [inTime, hx, Bool.decide_and, Bool.and_eq_true, decide_eq_true_eq] at htime
      obtain ⟨hgrant, hle, hissued⟩ := htime
      have herased : Nested { s with pending := s.pending.eraseIdx i } := ⟨hs.grant, hs.parent⟩
      refine herased.add hgrant ?_
      rintro p ⟨⟩
      exact ⟨hle, hissued⟩
  | _ => exact ⟨hs.grant, hs.parent⟩

/-- A token expires no later than what it was obtained from, which is a token of the authority. -/
theorem Nested.of_before (hs : Nested s) {u t : Token} (h : Before s u t) :
    t.notAfter ≤ u.notAfter ∧ u ∈ s.issued.map Prod.snd := by
  induction h with
  | parent hissued => exact hs.parent _ _ hissued
  | exchange _ hissued ih => exact ⟨(hs.parent _ _ hissued).1.trans ih.1, ih.2⟩

theorem withinGrant_of_fitsGrant {t : Token} {now : ℤ} (h : fitsGrant t.notAfter t.grant = true)
    (hnow : now < t.notAfter) : t.WithinGrant now := by
  intro hne
  simp only [fitsGrant, decide_eq_true_eq] at h
  have hle := h.2.resolve_left hne
  omega

end

namespace ExchangeSample

/-- A token that is exchanged at once. -/
def nested : List ExchangeEvent :=
  [root "r" 0 1, .check exchange 1, .issue 0 (Bytes.ascii "x") 1]

/-- A token for a grant of ten minutes, and one that is exchanged from r when r is about to expire. -/
def extending : List ExchangeEvent :=
  [root "g" (600 * Time.second) 1, root "r" 0 1, .check exchange (3590 * Time.second),
    .issue 0 (Bytes.ascii "x") (3590 * Time.second)]

end ExchangeSample

end Sanad.Delegation
