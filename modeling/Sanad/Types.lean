import Mathlib.Data.Int.Notation
import Sanad.Common.Bytes

/-! # Shared types

`pkg/types`: the records that the packages pass to each other. Strings are byte strings and maps to
absent values are options. An instant is the number of nanoseconds since January 1, year 1, UTC, so
that the zero `time.Time` is zero.
-/

namespace Sanad

namespace Time

/-- `time.Second` -/
def second : ℤ := 1000000000

/-- The largest `time.Duration`. -/
def maxDuration : ℤ := 9223372036854775807

/-- Arithmetic on `int64`, and so on `time.Duration`, wraps around. -/
def wrap (z : ℤ) : ℤ := z.bmod 18446744073709551616

/-- `Time.Unix`: whole seconds since 1970, rounded down. -/
def unix (t : ℤ) : ℤ := wrap (t / second - 62135596800)

/-- `Time.UnixNano` -/
def unixNano (t : ℤ) : ℤ := wrap (t - 62135596800 * second)

/-- `time.Unix`, of whole seconds. -/
def ofUnix (sec : ℤ) : ℤ := wrap (sec + 62135596800) * second

/-- `Time.Sub`: the difference, or the largest or smallest duration if it is out of range. -/
def sub (t u : ℤ) : ℤ := max (-maxDuration - 1) (min maxDuration (t - u))

/-- The instants whose nanoseconds since 1970 fit into an `int64`. -/
def NanoRange (t : ℤ) : Prop :=
  -maxDuration - 1 ≤ t - 62135596800 * second ∧ t - 62135596800 * second ≤ maxDuration

instance (t : ℤ) : Decidable (NanoRange t) := inferInstanceAs (Decidable (_ ∧ _))

/-- The values of an `int64`. -/
def IsInt64 (z : ℤ) : Prop := -maxDuration - 1 ≤ z ∧ z ≤ maxDuration

instance (z : ℤ) : Decidable (IsInt64 z) := inferInstanceAs (Decidable (_ ∧ _))

/-- The instants that a `time.Time` can hold, which counts the seconds since year 1 in an `int64`. -/
def Representable (t : ℤ) : Prop := IsInt64 (t / second)

instance (t : ℤ) : Decidable (Representable t) := inferInstanceAs (Decidable (IsInt64 (t / second)))

theorem wrap_of_isInt64 {z : ℤ} (h : IsInt64 z) : wrap z = z := by
  obtain ⟨hlow, hhigh⟩ := h
  rw [maxDuration] at hlow hhigh
  exact Int.bmod_eq_of_le (by omega) (by omega)

theorem isInt64_wrap (z : ℤ) : IsInt64 (wrap z) := by
  have hlow : -(18446744073709551616 / 2) ≤ wrap z := Int.le_bmod (by decide)
  have hhigh : wrap z < (18446744073709551616 + 1) / 2 := Int.bmod_lt (by decide)
  rw [IsInt64, maxDuration]
  omega

theorem emod_eq_of_wrap_eq {a b : ℤ} (h : wrap a = wrap b) :
    a % 18446744073709551616 = b % 18446744073709551616 := by
  have hwrap : ∀ z, wrap z % 18446744073709551616 = z % 18446744073709551616 := fun z =>
    Int.bmod_emod
  rw [← hwrap a, h, hwrap b]

theorem unixNano_injOn {t u : ℤ} (ht : NanoRange t) (hu : NanoRange u)
    (h : unixNano t = unixNano u) : t = u := by
  rw [unixNano, unixNano, wrap_of_isInt64 ht, wrap_of_isInt64 hu] at h
  omega

/-- Instants with one Unix time are in one second. -/
theorem seconds_eq_of_unix_eq {t u : ℤ} (ht : Representable t) (hu : Representable u)
    (h : unix t = unix u) : t / second = u / second := by
  have hseconds := congrArg (fun z => wrap (z + 62135596800)) h
  simp only [unix, wrap, Int.bmod_add_bmod, Int.sub_add_cancel] at hseconds
  rwa [← wrap, ← wrap, wrap_of_isInt64 ht, wrap_of_isInt64 hu] at hseconds

/-- Unix times are rounded down, so an earlier one is of an earlier instant. The later instant must not
be so far in the past that its Unix time wraps around. -/
theorem lt_of_unix_lt {t u : ℤ} (ht : Representable t) (hu : IsInt64 (u / second - 62135596800))
    (h : unix t < unix u) : t < u := by
  by_contra hle
  have hseconds : u / second ≤ t / second := Int.ediv_le_ediv (by decide) (Int.not_lt.mp hle)
  have hrange : IsInt64 (t / second - 62135596800) := ⟨by have := hu.1; omega, by have := ht.2; omega⟩
  rw [unix, unix, wrap_of_isInt64 hrange, wrap_of_isInt64 hu] at h
  omega

/-- A Unix time comes back from its instant, however large it is. -/
theorem unix_ofUnix {sec : ℤ} (h : IsInt64 sec) : unix (ofUnix sec) = sec := by
  rw [unix, ofUnix, Int.mul_ediv_cancel _ (by decide), wrap, wrap, Int.bmod_sub_bmod,
    Int.add_sub_cancel]
  exact wrap_of_isInt64 h

/-- An instant comes back from its Unix time without its fraction of a second. -/
theorem ofUnix_unix {t : ℤ} (h : Representable t) : ofUnix (unix t) = t / second * second := by
  rw [unix, ofUnix, wrap, wrap, Int.bmod_add_bmod, Int.sub_add_cancel, ← wrap, wrap_of_isInt64 h]

/-- A difference is compared with a bound inside the range as if it were exact. -/
theorem sub_le_iff {t u d : ℤ} (hlow : -maxDuration - 1 ≤ d) (hhigh : d < maxDuration) :
    sub t u ≤ d ↔ t ≤ u + d := by
  rw [sub]
  rw [maxDuration] at hlow hhigh ⊢
  omega

end Time

/-- `types.Budget` -/
structure Budget where
  limit : ℤ
  unit : Bytes
  deriving DecidableEq, Repr

/-- `types.Scope`: the tools a passport covers, and its spend limit. -/
structure Scope where
  tools : List Bytes
  budget : Option Budget
  deriving DecidableEq, Repr

/-- `types.DelegationHop` -/
structure DelegationHop where
  delegator : Bytes
  delegate : Bytes
  scope : Scope
  signature : Bytes
  deriving DecidableEq, Repr

/-- `types.DelegationChain` -/
structure DelegationChain where
  hops : List DelegationHop
  deriving DecidableEq, Repr

/-- `DelegationChain.Path`: the root delegator and each hop's delegate. -/
def DelegationChain.path (c : DelegationChain) : List Bytes :=
  match c.hops with
  | [] => []
  | root :: _ => root.delegator :: c.hops.map DelegationHop.delegate

/-- `types.DelegationRef`: a chain as it travels on a passport. -/
structure DelegationRef where
  path : List Bytes
  digest : Bytes
  deriving DecidableEq, Repr

/-- `types.AssuranceLevel` -/
inductive AssuranceLevel where
  | unverified
  | individual
  | org
  deriving DecidableEq, Repr

/-- `types.Principal` -/
structure Principal where
  id : Bytes
  subject : Bytes
  assurance : AssuranceLevel
  disabled : Bool
  createdAt : ℤ
  deriving DecidableEq, Repr

/-- `types.Agent` -/
structure Agent where
  id : Bytes
  principalID : Bytes
  blueprintID : Bytes
  disabled : Bool
  createdAt : ℤ
  deriving DecidableEq, Repr

/-- `types.Effect`: a string type with three constants. A decision point may return any other
string, and the zero decision holds the empty one. -/
inductive Effect where
  | deny
  | allow
  | review
  | other (effect : Bytes)
  deriving DecidableEq, Repr

/-- The reason of a decision: the text of a decision point or an operator, or one of the texts that
the gateway formats itself. -/
inductive Reason where
  | text (text : Bytes)
  /-- `tool %q is outside the delegated scope %v` -/
  | outsideScope (tool : Bytes) (tools : List Bytes)
  /-- `server %q is quarantined for tool-definition drift (approved %s, observed %s at %s); only the
  MCP handshake and tools/list are forwarded until its definitions match again` -/
  | quarantined (server approved observed : Bytes) (observedAt : ℤ)
  deriving DecidableEq, Repr

/-- `types.Decision` -/
structure Decision where
  effect : Effect
  reason : Reason
  deriving DecidableEq, Repr

/-- `Decision.Allowed` -/
def Decision.allowed (d : Decision) : Bool := d.effect = .allow

/-- `types.Passport` -/
structure Passport where
  id : Bytes
  principalID : Bytes
  agentID : Bytes
  audience : Bytes
  scope : Scope
  delegation : Option DelegationChain
  delegationRef : Option DelegationRef := none
  issuedAt : ℤ
  expiresAt : ℤ
  deriving DecidableEq, Repr

/-- `Passport.Expired` -/
def Passport.expired (p : Passport) (t : ℤ) : Bool := ¬t < p.expiresAt

end Sanad
