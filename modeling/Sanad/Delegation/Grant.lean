import Mathlib.Algebra.Order.Group.Int
import Sanad.Common.Except
import Sanad.Types

/-! # Grants

`delegation/attenuation.go`: the authority that a hop of a delegation chain confers, and the check
that a hop only narrows it. A grant bounds four things, each in its own way: an empty list of tools
or of servers, a zero expiry and a nil budget stand for no bound.

`Permits` says what a grant is for: the uses it allows. The check `attenuates` decides a preorder on
grants (`attenuates_eq_ok_iff`), and what a narrower grant permits, a wider one permits
(`permits_of_le`).
-/

namespace Sanad.Delegation

/-- `Grant`: the authority conferred by a hop. -/
structure Grant where
  tools : List Bytes
  servers : List Bytes
  notAfter : ℤ
  budget : Option Budget
  deriving DecidableEq, Repr

/-- `Grant.Scope`: servers are no part of a passport's scope. -/
def Grant.scope (g : Grant) : Scope := { tools := g.tools, budget := g.budget }

/-- The two lists of a grant, as error messages name them. -/
inductive ListName where
  | tools
  | servers
  deriving DecidableEq, Repr

/-- The errors of `attenuates` and `subset`. -/
inductive AttenuationError where
  /-- `%s widened to wildcard` -/
  | widenedToWildcard (name : ListName)
  /-- `%s %q not granted by the parent hop` -/
  | notGranted (name : ListName) (entry : Bytes)
  /-- `expiry not narrowed` -/
  | expiryNotNarrowed
  /-- `budget constraint removed` -/
  | budgetRemoved
  /-- `budget unit changed %q -> %q` -/
  | budgetUnitChanged (parent child : Bytes)
  /-- `budget raised %d -> %d` -/
  | budgetRaised (parent child : ℤ)
  deriving DecidableEq, Repr

/-- The loop of `subset` over the child's entries. -/
def checkEntries (name : ListName) (parent : List Bytes) : List Bytes → Except AttenuationError Unit
  | [] => .ok ()
  | c :: child => if c ∈ parent then checkEntries name parent child else .error (.notGranted name c)

/-- `subset`: narrowing of a list of names, in which the empty list is a wildcard. -/
def subset (name : ListName) (parent child : List Bytes) : Except AttenuationError Unit :=
  if parent.length = 0 then .ok ()
  else if child.length = 0 then .error (.widenedToWildcard name)
  else checkEntries name parent child

/-- The expiry check of `attenuates`. -/
def checkExpiry (parent child : ℤ) : Except AttenuationError Unit :=
  if parent ≠ 0 ∧ (child = 0 ∨ child > parent) then .error .expiryNotNarrowed else .ok ()

/-- The budget checks of `attenuates`. -/
def checkBudget : Option Budget → Option Budget → Except AttenuationError Unit
  | none, _ => .ok ()
  | some _, none => .error .budgetRemoved
  | some parent, some child =>
    if child.unit ≠ parent.unit then .error (.budgetUnitChanged parent.unit child.unit)
    else if child.limit > parent.limit then .error (.budgetRaised parent.limit child.limit)
    else .ok ()

/-- `attenuates`: an error if the child grants more authority than the parent. -/
def attenuates (parent child : Grant) : Except AttenuationError Unit := do
  subset .tools parent.tools child.tools
  subset .servers parent.servers child.servers
  checkExpiry parent.notAfter child.notAfter
  checkBudget parent.budget child.budget

/-! ## The preorder of grants -/

/-- The child list is no wider than the parent list. -/
def NarrowsList (child parent : List Bytes) : Prop := parent ≠ [] → child ≠ [] ∧ child ⊆ parent

/-- The child expires no later than the parent. -/
def NarrowsExpiry (child parent : ℤ) : Prop := parent ≠ 0 → child ≠ 0 ∧ child ≤ parent

/-- The child has a budget of the same unit and no higher limit wherever the parent has one. -/
def NarrowsBudget (child parent : Option Budget) : Prop :=
  ∀ p ∈ parent, ∃ c ∈ child, c.unit = p.unit ∧ c.limit ≤ p.limit

/-- Grants are ordered by how much authority they confer. -/
instance : LE Grant where
  le child parent :=
    NarrowsList child.tools parent.tools ∧ NarrowsList child.servers parent.servers ∧
      NarrowsExpiry child.notAfter parent.notAfter ∧ NarrowsBudget child.budget parent.budget

theorem Grant.le_def {child parent : Grant} :
    child ≤ parent ↔
      NarrowsList child.tools parent.tools ∧ NarrowsList child.servers parent.servers ∧
        NarrowsExpiry child.notAfter parent.notAfter ∧ NarrowsBudget child.budget parent.budget :=
  Iff.rfl

theorem NarrowsList.trans {a b c : List Bytes} (hab : NarrowsList a b) (hbc : NarrowsList b c) :
    NarrowsList a c := by
  intro hc
  obtain ⟨hb, hsub⟩ := hbc hc
  obtain ⟨ha, hsub'⟩ := hab hb
  exact ⟨ha, List.Subset.trans hsub' hsub⟩

theorem NarrowsExpiry.trans {a b c : ℤ} (hab : NarrowsExpiry a b) (hbc : NarrowsExpiry b c) :
    NarrowsExpiry a c := by
  intro hc
  obtain ⟨hb, hle⟩ := hbc hc
  obtain ⟨ha, hle'⟩ := hab hb
  exact ⟨ha, hle'.trans hle⟩

theorem NarrowsBudget.trans {a b c : Option Budget} (hab : NarrowsBudget a b)
    (hbc : NarrowsBudget b c) : NarrowsBudget a c := by
  intro p hp
  obtain ⟨q, hq, hunit, hlimit⟩ := hbc p hp
  obtain ⟨r, hr, hunit', hlimit'⟩ := hab q hq
  exact ⟨r, hr, hunit'.trans hunit, hlimit'.trans hlimit⟩

instance : Preorder Grant where
  le_refl g := by
    refine ⟨?_, ?_, ?_, ?_⟩
    · intro h
      exact ⟨h, List.Subset.refl _⟩
    · intro h
      exact ⟨h, List.Subset.refl _⟩
    · intro h
      exact ⟨h, le_rfl⟩
    · intro p hp
      exact ⟨p, hp, rfl, le_rfl⟩
  le_trans a b c hab hbc :=
    ⟨hab.1.trans hbc.1, hab.2.1.trans hbc.2.1, hab.2.2.1.trans hbc.2.2.1,
      hab.2.2.2.trans hbc.2.2.2⟩

theorem checkEntries_eq_ok_iff {name : ListName} {parent child : List Bytes} :
    checkEntries name parent child = .ok () ↔ child ⊆ parent := by
  induction child with
  | nil => simp [checkEntries]
  | cons c child ih =>
      rw [checkEntries, List.cons_subset]
      by_cases hc : c ∈ parent
      · simp [hc, ih]
      · simp [hc]

theorem subset_eq_ok_iff {name : ListName} {parent child : List Bytes} :
    subset name parent child = .ok () ↔ NarrowsList child parent := by
  rw [subset, NarrowsList]
  by_cases hp : parent = []
  · simp [hp]
  · by_cases hc : child = []
    · simp [hp, hc]
    · simp [hp, hc, checkEntries_eq_ok_iff]

theorem checkExpiry_eq_ok_iff {parent child : ℤ} :
    checkExpiry parent child = .ok () ↔ NarrowsExpiry child parent := by
  rw [checkExpiry, NarrowsExpiry]
  split
  · next h =>
      simp only [reduceCtorEq, false_iff]
      intro hn
      obtain ⟨hc, hle⟩ := hn h.1
      omega
  · next h =>
      simp only [true_iff]
      intro hp
      omega

theorem checkBudget_eq_ok_iff {parent child : Option Budget} :
    checkBudget parent child = .ok () ↔ NarrowsBudget child parent := by
  cases parent with
  | none => simp [checkBudget, NarrowsBudget]
  | some p =>
      cases child with
      | none => simp [checkBudget, NarrowsBudget]
      | some c =>
          rw [checkBudget, NarrowsBudget]
          by_cases hu : c.unit = p.unit
          · by_cases hl : c.limit > p.limit
            · simp [hu, hl, hl.not_ge]
            · simp [hu, hl, not_lt.mp hl]
          · simp [hu]

/-- `attenuates` decides the order of grants. -/
theorem attenuates_eq_ok_iff {parent child : Grant} :
    attenuates parent child = .ok () ↔ child ≤ parent := by
  rw [attenuates, Except.check_bind_eq_ok_iff, Except.check_bind_eq_ok_iff,
    Except.check_bind_eq_ok_iff, subset_eq_ok_iff, subset_eq_ok_iff, checkExpiry_eq_ok_iff,
    checkBudget_eq_ok_iff, Grant.le_def]

/-- Along items that each confer no more than the one before, the last confers no more than any. -/
theorem last_le_of_isChain {α : Type} {grant : α → Grant} {items : List α} {last : α}
    (h : items.IsChain fun a b => grant b ≤ grant a) (hlast : items.getLast? = some last) :
    ∀ a ∈ items, grant last ≤ grant a := by
  have hpairs : items.Pairwise fun a b => grant b ≤ grant a := by
    have htrans : IsTrans α fun a b => grant b ≤ grant a := ⟨fun a b c hab hbc => hbc.trans hab⟩
    exact List.isChain_iff_pairwise.mp h
  obtain ⟨init, rfl⟩ := List.getLast?_eq_some_iff.mp hlast
  intro a ha
  rcases List.mem_append.mp ha with ha | ha
  · exact (List.pairwise_append.mp hpairs).2.2 a ha last (List.mem_singleton_self last)
  · rw [List.mem_singleton.mp ha]

/-! ## What a grant permits -/

/-- A use of delegated authority: a tool of a server, at a time, for an amount of some unit. -/
structure Use where
  tool : Bytes
  server : Bytes
  time : ℤ
  unit : Bytes
  amount : ℤ

/-- The grant permits the use. -/
def Grant.Permits (g : Grant) (u : Use) : Prop :=
  (g.tools = [] ∨ u.tool ∈ g.tools) ∧ (g.servers = [] ∨ u.server ∈ g.servers) ∧
    (g.notAfter = 0 ∨ u.time < g.notAfter) ∧
    ∀ b ∈ g.budget, u.unit = b.unit ∧ u.amount ≤ b.limit

theorem NarrowsList.mem_or {child parent : List Bytes} (h : NarrowsList child parent) {x : Bytes}
    (hx : child = [] ∨ x ∈ child) : parent = [] ∨ x ∈ parent := by
  by_cases hp : parent = []
  · exact .inl hp
  · obtain ⟨hne, hsub⟩ := h hp
    exact .inr (hsub (hx.resolve_left hne))

/-- What a narrower grant permits, a wider one permits. -/
theorem permits_of_le {child parent : Grant} (h : child ≤ parent) {u : Use} (hu : child.Permits u) :
    parent.Permits u := by
  obtain ⟨htools, hservers, hexpiry, hbudget⟩ := h
  obtain ⟨hu₁, hu₂, hu₃, hu₄⟩ := hu
  refine ⟨htools.mem_or hu₁, hservers.mem_or hu₂, ?_, ?_⟩
  · by_cases hp : parent.notAfter = 0
    · exact .inl hp
    · obtain ⟨hc, hle⟩ := hexpiry hp
      exact .inr (lt_of_lt_of_le (hu₃.resolve_left hc) hle)
  · intro p hp
    obtain ⟨c, hc, hunit, hlimit⟩ := hbudget p hp
    obtain ⟨hu_unit, hu_amount⟩ := hu₄ c hc
    exact ⟨hu_unit.trans hunit, hu_amount.trans hlimit⟩

end Sanad.Delegation
