import Sanad.Common.Json.Slice
import Sanad.Delegation.Capability
import Sanad.Delegation.Digest
import Sanad.Delegation.Presentation
import Sanad.Passport.Codec

/-! # Delegations in headers

`delegation/transport.go` and the transport form of `delegation/capability.go`: a chain and a capability
travel as the base64 of their JSON, which holds the expiry of a grant in the zone it was made in. The
text shows a zone to the minute, and no bytes that are not UTF-8. What arrives is what was sent exactly
if neither is lost (`decodeChain_encodeChain_iff`), and where something is lost, no signature covers
what arrives (`transport_exact`).
-/

namespace Sanad.Delegation

open Json

/-! ## Writing -/

/-- A `*types.Budget`. -/
def budgetJson : Option Budget → Json
  | none => .null
  | some b => .ofFields [("Limit", .ofInt b.limit), ("Unit", .ofString b.unit)]

section

-- the zone in which the expiry of a grant is held, as its offset from UTC in seconds
variable (zone : Grant → ℤ)

/-- What is written for a grant whose expiry can be written. -/
def Grant.json (g : Grant) : Json :=
  .ofFields [("Tools", .ofSlice .ofString g.tools), ("Servers", .ofSlice .ofString g.servers),
    ("NotAfter", (Json.ofTime g.notAfter (zone g)).getD .null), ("Budget", budgetJson g.budget)]

/-- The expiry of the grant can be written: `Time.MarshalJSON` accepts its year and its zone. -/
def Grant.Writable (g : Grant) : Prop := (Json.ofTime g.notAfter (zone g)).isSome = true

instance (g : Grant) : Decidable (g.Writable zone) := inferInstanceAs (Decidable (_ = true))

def Hop.json (h : Hop) : Json :=
  .ofFields [("Delegator", .ofString h.delegator), ("Delegate", .ofString h.delegate),
    ("Grant", h.grant.json zone), ("Signature", .ofByteSlice h.signature)]

def Chain.json (c : Chain) : Json := .ofFields [("Hops", .ofSlice (Hop.json zone) c.hops)]

def Block.json (b : Block) : Json :=
  .ofFields [("grant", b.grant.json zone), ("next", .ofByteSlice b.nextPub),
    ("sig", .ofByteSlice b.signature)]

def Capability.json (c : Capability) : Json :=
  .ofFields [("blocks", .ofSlice (Block.json zone) c.blocks), ("seal", .ofByteSlice c.sealSig)]

/-- `EncodeChain` -/
def encodeChain (c : Chain) : Option Bytes :=
  if ∀ hop ∈ c.hops, hop.grant.Writable zone then some (toHeader (c.json zone)) else none

/-- `EncodeCapability` -/
def encodeCapability (c : Capability) : Option Bytes :=
  if ∀ b ∈ c.blocks, b.grant.Writable zone then some (toHeader (c.json zone)) else none

end

/-! ## Reading -/

/-- A `Grant` that is decoded into. -/
structure WireGrant where
  tools : Slice Bytes
  servers : Slice Bytes
  notAfter : ℤ
  budget : Option Budget

inductive GrantField where
  | tools
  | servers
  | notAfter
  | budget

namespace WireGrant

def zero : WireGrant := ⟨.nil, .nil, 0, none⟩

def ofGrant (g : Grant) : WireGrant := ⟨.ofList g.tools, .ofList g.servers, g.notAfter, g.budget⟩

def grant (w : WireGrant) : Grant := ⟨w.tools.toList, w.servers.toList, w.notAfter, w.budget⟩

def fields : List (Bytes × GrantField) :=
  [(Bytes.ascii "Tools", .tools), (Bytes.ascii "Servers", .servers),
    (Bytes.ascii "NotAfter", .notAfter), (Bytes.ascii "Budget", .budget)]

def store (f : GrantField) (v : Json) (w : WireGrant) : Option WireGrant :=
  match f with
  | .tools => (decodeSlice decodeText [] w.tools v).map fun s => { w with tools := s }
  | .servers => (decodeSlice decodeText [] w.servers v).map fun s => { w with servers := s }
  | .notAfter => (decodeTime w.notAfter v).map fun t => { w with notAfter := t }
  | .budget => (decodePointer Passport.decodeBudget ⟨0, []⟩ w.budget v).map fun b =>
      { w with budget := b }

def decode : WireGrant → Json → Option WireGrant := decodeRecord fields store

end WireGrant

/-- A `Hop` that is decoded into. -/
structure WireHop where
  delegator : Bytes
  delegate : Bytes
  grant : WireGrant
  signature : Slice UInt8

inductive HopField where
  | delegator
  | delegate
  | grant
  | signature

namespace WireHop

def zero : WireHop := ⟨[], [], .zero, .nil⟩

def ofHop (h : Hop) : WireHop := ⟨h.delegator, h.delegate, .ofGrant h.grant, .ofList h.signature⟩

def hop (w : WireHop) : Hop := ⟨w.delegator, w.delegate, w.grant.grant, w.signature.toList⟩

def fields : List (Bytes × HopField) :=
  [(Bytes.ascii "Delegator", .delegator), (Bytes.ascii "Delegate", .delegate),
    (Bytes.ascii "Grant", .grant), (Bytes.ascii "Signature", .signature)]

def store (f : HopField) (v : Json) (w : WireHop) : Option WireHop :=
  match f with
  | .delegator => (decodeText w.delegator v).map fun s => { w with delegator := s }
  | .delegate => (decodeText w.delegate v).map fun s => { w with delegate := s }
  | .grant => (w.grant.decode v).map fun g => { w with grant := g }
  | .signature => (decodeBytes w.signature v).map fun b => { w with signature := b }

def decode : WireHop → Json → Option WireHop := decodeRecord fields store

end WireHop

/-- A `Block` that is decoded into. -/
structure WireBlock where
  grant : WireGrant
  nextPub : Slice UInt8
  signature : Slice UInt8

inductive BlockField where
  | grant
  | nextPub
  | signature

namespace WireBlock

def zero : WireBlock := ⟨.zero, .nil, .nil⟩

def ofBlock (b : Block) : WireBlock := ⟨.ofGrant b.grant, .ofList b.nextPub, .ofList b.signature⟩

def block (w : WireBlock) : Block := ⟨w.grant.grant, w.nextPub.toList, w.signature.toList⟩

def fields : List (Bytes × BlockField) :=
  [(Bytes.ascii "grant", .grant), (Bytes.ascii "next", .nextPub), (Bytes.ascii "sig", .signature)]

def store (f : BlockField) (v : Json) (w : WireBlock) : Option WireBlock :=
  match f with
  | .grant => (w.grant.decode v).map fun g => { w with grant := g }
  | .nextPub => (decodeBytes w.nextPub v).map fun b => { w with nextPub := b }
  | .signature => (decodeBytes w.signature v).map fun b => { w with signature := b }

def decode : WireBlock → Json → Option WireBlock := decodeRecord fields store

end WireBlock

/-- `Chain` has one field. -/
def decodeHops : Slice WireHop → Json → Option (Slice WireHop) :=
  decodeRecord [(Bytes.ascii "Hops", ())] fun _ v s => decodeSlice WireHop.decode .zero s v

inductive CapabilityField where
  | blocks
  | sealSig

/-- The fields of a `Capability` that is decoded into. -/
def decodeBlocks : Slice WireBlock × Slice UInt8 → Json → Option (Slice WireBlock × Slice UInt8) :=
  decodeRecord [(Bytes.ascii "blocks", CapabilityField.blocks), (Bytes.ascii "seal", .sealSig)]
    fun f v w =>
      match f with
      | .blocks => (decodeSlice WireBlock.decode .zero w.1 v).map fun s => (s, w.2)
      | .sealSig => (decodeBytes w.2 v).map fun b => (w.1, b)

/-- The errors of the two decoders. -/
inductive TransportError where
  /-- `delegation: bad chain encoding: %w` -/
  | badChainEncoding
  /-- `delegation: bad chain: %w` -/
  | badChain
  /-- `delegation: too deep: chain has %d hops, the maximum is %d` -/
  | chainTooDeep (hops maximum : ℕ)
  /-- `delegation: bad capability encoding: %w` -/
  | badCapabilityEncoding
  /-- `delegation: bad capability: %w` -/
  | badCapability
  /-- `delegation: too deep: capability has %d blocks, the maximum is %d` -/
  | capabilityTooDeep (blocks maximum : ℕ)
  deriving DecidableEq, Repr

/-- `DecodeChain` -/
def decodeChain (s : Bytes) : Except TransportError Chain := do
  let hops ← ofHeader .badChainEncoding .badChain (decodeHops .nil) s
  let c : Chain := ⟨hops.toList.map WireHop.hop⟩
  Except.require (c.hops.length ≤ maxDepth) (.chainTooDeep c.hops.length maxDepth)
  .ok c

/-- `DecodeCapability` -/
def decodeCapability (s : Bytes) : Except TransportError Capability := do
  let w ← ofHeader .badCapabilityEncoding .badCapability (decodeBlocks (.nil, .nil)) s
  let c : Capability := ⟨w.1.toList.map WireBlock.block, w.2.toList⟩
  Except.require (c.blocks.length ≤ maxDepth) (.capabilityTooDeep c.blocks.length maxDepth)
  .ok c

/-! ## What arrives -/

section

variable (zone : Grant → ℤ)

/-- A grant after it was written and read. -/
def Grant.reread (g : Grant) : Grant where
  tools := g.tools.map Json.reread
  servers := g.servers.map Json.reread
  notAfter := g.notAfter + (zone g - (zone g).tdiv 60 * 60) * Time.second
  budget := g.budget.map Passport.rereadBudget

def Hop.reread (h : Hop) : Hop :=
  ⟨Json.reread h.delegator, Json.reread h.delegate, h.grant.reread zone, h.signature⟩

def Block.reread (b : Block) : Block := ⟨b.grant.reread zone, b.nextPub, b.signature⟩

def Chain.reread (c : Chain) : Chain := ⟨c.hops.map (Hop.reread zone)⟩

def Capability.reread (c : Capability) : Capability := ⟨c.blocks.map (Block.reread zone), c.sealSig⟩

end

/-- The limit of a budget is an `int64`. -/
def Grant.InRange (g : Grant) : Prop := ∀ b ∈ g.budget, Time.IsInt64 b.limit

variable {zone : Grant → ℤ}

theorem decodePointer_budgetJson {budget : Option Budget} (h : ∀ b ∈ budget, Time.IsInt64 b.limit) :
    decodePointer Passport.decodeBudget ⟨0, []⟩ none (budgetJson budget) =
      some (budget.map Passport.rereadBudget) := by
  cases budget with
  | none => rfl
  | some b =>
      show (Passport.decodeBudget ⟨0, []⟩ (.ofFields _)).map some = _
      rw [Passport.decodeBudget_written (h b rfl)]
      rfl

theorem decodeSlice_strings (s : List Bytes) :
    decodeSlice decodeText [] .nil (.ofSlice .ofString s) = some (.ofList (s.map Json.reread)) :=
  decodeSlice_ofSlice fun x _ => decodeText_ofString [] x

theorem WireGrant.decode_json {g : Grant} (hrange : g.InRange) (h : g.Writable zone) :
    WireGrant.zero.decode (g.json zone) = some (.ofGrant (g.reread zone)) := by
  obtain ⟨v, hv⟩ := Option.isSome_iff_exists.mp h
  rw [Grant.json, hv, Option.getD_some, WireGrant.decode, WireGrant.zero,
    decodeRecord_cons (f := GrantField.tools) rfl, WireGrant.store, decodeSlice_strings,
    Option.map_some, Option.bind_some, decodeRecord_cons (f := GrantField.servers) rfl,
    WireGrant.store, decodeSlice_strings, Option.map_some, Option.bind_some,
    decodeRecord_cons (f := GrantField.notAfter) rfl, WireGrant.store, decodeTime_ofTime hv,
    Option.map_some, Option.bind_some, decodeRecord_field (f := GrantField.budget) rfl,
    WireGrant.store, decodePointer_budgetJson hrange, Option.map_some]
  rfl

theorem WireHop.decode_json {hop : Hop} (hrange : hop.grant.InRange) (h : hop.grant.Writable zone) :
    WireHop.zero.decode (hop.json zone) = some (.ofHop (hop.reread zone)) := by
  rw [Hop.json, WireHop.decode, WireHop.zero, decodeRecord_cons (f := HopField.delegator) rfl,
    WireHop.store, decodeText_ofString, Option.map_some, Option.bind_some,
    decodeRecord_cons (f := HopField.delegate) rfl, WireHop.store, decodeText_ofString,
    Option.map_some, Option.bind_some, decodeRecord_cons (f := HopField.grant) rfl, WireHop.store,
    WireGrant.decode_json hrange h, Option.map_some, Option.bind_some,
    decodeRecord_field (f := HopField.signature) rfl, WireHop.store, decodeBytes_ofByteSlice,
    Option.map_some]
  rfl

theorem WireBlock.decode_json {b : Block} (hrange : b.grant.InRange) (h : b.grant.Writable zone) :
    WireBlock.zero.decode (b.json zone) = some (.ofBlock (b.reread zone)) := by
  rw [Block.json, WireBlock.decode, WireBlock.zero, decodeRecord_cons (f := BlockField.grant) rfl,
    WireBlock.store, WireGrant.decode_json hrange h, Option.map_some, Option.bind_some,
    decodeRecord_cons (f := BlockField.nextPub) rfl, WireBlock.store, decodeBytes_ofByteSlice,
    Option.map_some, Option.bind_some, decodeRecord_field (f := BlockField.signature) rfl,
    WireBlock.store, decodeBytes_ofByteSlice, Option.map_some]
  rfl

theorem WireGrant.grant_ofGrant (g : Grant) : (WireGrant.ofGrant g).grant = g := by
  rw [WireGrant.ofGrant, WireGrant.grant, Slice.toList_ofList, Slice.toList_ofList]

theorem WireHop.hop_ofHop (h : Hop) : (WireHop.ofHop h).hop = h := by
  rw [WireHop.ofHop, WireHop.hop, WireGrant.grant_ofGrant, Slice.toList_ofList]

theorem WireBlock.block_ofBlock (b : Block) : (WireBlock.ofBlock b).block = b := by
  rw [WireBlock.ofBlock, WireBlock.block, WireGrant.grant_ofGrant, Slice.toList_ofList,
    Slice.toList_ofList]

theorem Grant.depth_json_le (g : Grant) : (g.json zone).depth ≤ 2 := by
  have hstrings : ∀ s : List Bytes, (Json.ofSlice .ofString s).depth ≤ 1 := fun s =>
    depth_ofSlice_le fun _ _ => Nat.le_refl 0
  have htime : ((Json.ofTime g.notAfter (zone g)).getD .null).depth ≤ 1 := by
    cases hv : Json.ofTime g.notAfter (zone g) with
    | none => exact Nat.zero_le 1
    | some v => exact (depth_ofTime hv).le.trans (Nat.zero_le 1)
  have hbudget : (budgetJson g.budget).depth ≤ 1 := by
    cases g.budget with
    | none => exact Nat.zero_le 1
    | some b =>
        refine depth_ofFields_le ?_
        simp [Json.ofString, Json.ofInt, depth]
  refine depth_ofFields_le ?_
  simp only [List.forall_mem_cons]
  exact ⟨hstrings _, hstrings _, htime, hbudget, by simp⟩

theorem Hop.depth_json_le (h : Hop) : (h.json zone).depth ≤ 3 := by
  refine depth_ofFields_le ?_
  simp only [List.forall_mem_cons, depth_ofByteSlice]
  exact ⟨Nat.zero_le 2, Nat.zero_le 2, h.grant.depth_json_le, Nat.zero_le 2, by simp⟩

theorem Block.depth_json_le (b : Block) : (b.json zone).depth ≤ 3 := by
  refine depth_ofFields_le ?_
  simp only [List.forall_mem_cons, depth_ofByteSlice]
  exact ⟨b.grant.depth_json_le, Nat.zero_le 2, Nat.zero_le 2, by simp⟩

/-- What `DecodeChain` makes of what `EncodeChain` made. -/
theorem decodeChain_encodeChain {c : Chain} {s : Bytes} (hrange : ∀ hop ∈ c.hops, hop.grant.InRange)
    (h : encodeChain zone c = some s) :
    decodeChain s = if c.hops.length ≤ maxDepth then .ok (c.reread zone)
      else .error (.chainTooDeep c.hops.length maxDepth) := by
  rw [encodeChain] at h
  split at h
  · next hwritable =>
      obtain rfl := Option.some.inj h
      have hhops : decodeSlice WireHop.decode .zero .nil (.ofSlice (Hop.json zone) c.hops) =
          some (.ofList (c.hops.map fun hop => .ofHop (hop.reread zone))) :=
        decodeSlice_ofSlice fun hop hmem => WireHop.decode_json (hrange hop hmem) (hwritable hop hmem)
      have hdecode : decodeHops .nil (c.json zone) =
          some (.ofList (c.hops.map fun hop => .ofHop (hop.reread zone))) := by
        rw [Chain.json, decodeHops, decodeRecord_field (f := ()) rfl, hhops]
      have hdepth : (c.json zone).depth ≤ 5 := by
        refine depth_ofFields_le (List.forall_mem_singleton.mpr ?_)
        exact depth_ofSlice_le fun hop _ => hop.depth_json_le
      have hback : (Slice.ofList (c.hops.map fun hop => WireHop.ofHop (hop.reread zone))).toList.map
          WireHop.hop = c.hops.map (Hop.reread zone) := by
        rw [Slice.toList_ofList, List.map_map]
        exact List.map_congr_left fun hop _ => WireHop.hop_ofHop _
      rw [decodeChain, ofHeader_toHeader (hdepth.trans (by decide)) hdecode]
      show (do Except.require _ _; .ok _) = _
      rw [hback, List.length_map, Except.require]
      split <;> rfl
  · cases h

/-- What `DecodeCapability` makes of what `EncodeCapability` made. -/
theorem decodeCapability_encodeCapability {c : Capability} {s : Bytes}
    (hrange : ∀ b ∈ c.blocks, b.grant.InRange) (h : encodeCapability zone c = some s) :
    decodeCapability s = if c.blocks.length ≤ maxDepth then .ok (c.reread zone)
      else .error (.capabilityTooDeep c.blocks.length maxDepth) := by
  rw [encodeCapability] at h
  split at h
  · next hwritable =>
      obtain rfl := Option.some.inj h
      have hblocks : decodeSlice WireBlock.decode .zero .nil (.ofSlice (Block.json zone) c.blocks) =
          some (.ofList (c.blocks.map fun b => .ofBlock (b.reread zone))) :=
        decodeSlice_ofSlice fun b hmem => WireBlock.decode_json (hrange b hmem) (hwritable b hmem)
      have hdecode : decodeBlocks (.nil, .nil) (c.json zone) =
          some (.ofList (c.blocks.map fun b => .ofBlock (b.reread zone)), .ofList c.sealSig) := by
        rw [Capability.json, decodeBlocks, decodeRecord_cons (f := CapabilityField.blocks) rfl]
        simp only [hblocks, Option.map_some, Option.bind_some]
        rw [decodeRecord_field (f := CapabilityField.sealSig) rfl, decodeBytes_ofByteSlice,
          Option.map_some]
      have hdepth : (c.json zone).depth ≤ 5 := by
        refine depth_ofFields_le ?_
        simp only [List.forall_mem_cons, depth_ofByteSlice]
        exact ⟨depth_ofSlice_le fun b _ => b.depth_json_le, Nat.zero_le 4, by simp⟩
      have hback : (Slice.ofList (c.blocks.map fun b => WireBlock.ofBlock (b.reread zone))).toList.map
          WireBlock.block = c.blocks.map (Block.reread zone) := by
        rw [Slice.toList_ofList, List.map_map]
        exact List.map_congr_left fun b _ => WireBlock.block_ofBlock _
      rw [decodeCapability, ofHeader_toHeader (hdepth.trans (by decide)) hdecode]
      show (do Except.require _ _; .ok _) = _
      rw [hback, Slice.toList_ofList, List.length_map, Except.require]
      split <;> rfl
  · cases h

/-! ## What is lost -/

theorem map_reread_eq_self_iff {s : List Bytes} :
    s.map Json.reread = s ↔ ∀ t ∈ s, Utf8.valid t = true := by
  refine ⟨fun h t ht => ?_, map_reread⟩
  have hself : s.map Json.reread = s.map id := h.trans (List.map_id s).symm
  exact reread_eq_self_iff.mp (List.map_inj_left.mp hself t ht)

/-- Nothing of the grant is lost on the way: its text is valid UTF-8, and the zone of its expiry is a
number of whole minutes. -/
structure Grant.Portable (zone : Grant → ℤ) (g : Grant) : Prop where
  valid : g.ValidUtf8
  minutes : 60 ∣ zone g

theorem Grant.reread_eq_self_iff {g : Grant} : g.reread zone = g ↔ g.Portable zone := by
  have hbudget : g.budget.map Passport.rereadBudget = g.budget ↔
      ∀ b ∈ g.budget, Utf8.valid b.unit = true := by
    cases hb : g.budget with
    | none => simp
    | some b =>
        obtain ⟨limit, unit⟩ := b
        simp [Passport.rereadBudget, ← Json.reread_eq_self_iff]
  have hzone : g.notAfter + (zone g - (zone g).tdiv 60 * 60) * Time.second = g.notAfter ↔
      60 ∣ zone g := by
    rw [Int.dvd_iff_tmod_eq_zero, Int.tmod_def, Time.second]
    omega
  obtain ⟨tools, servers, notAfter, budget⟩ := g
  rw [Grant.reread, Grant.mk.injEq, map_reread_eq_self_iff, map_reread_eq_self_iff, hbudget, hzone]
  constructor
  · rintro ⟨htools, hservers, hminutes, hunit⟩
    exact ⟨⟨htools, hservers, hunit⟩, hminutes⟩
  · rintro ⟨⟨htools, hservers, hunit⟩, hminutes⟩
    exact ⟨htools, hservers, hminutes, hunit⟩

/-- Nothing of the chain is lost on the way. -/
def Chain.Portable (zone : Grant → ℤ) (c : Chain) : Prop :=
  ∀ hop ∈ c.hops, hop.ValidIds ∧ hop.grant.Portable zone

theorem Hop.reread_eq_self_iff {h : Hop} :
    h.reread zone = h ↔ h.ValidIds ∧ h.grant.Portable zone := by
  obtain ⟨delegator, delegate, grant, signature⟩ := h
  rw [Hop.reread, Hop.mk.injEq, Json.reread_eq_self_iff, Json.reread_eq_self_iff,
    Grant.reread_eq_self_iff, Hop.ValidIds]
  tauto

theorem Chain.reread_eq_self_iff {c : Chain} : c.reread zone = c ↔ c.Portable zone := by
  obtain ⟨hops⟩ := c
  have hmap : hops.map (Hop.reread zone) = hops ↔ ∀ hop ∈ hops, hop.reread zone = hop := by
    conv_lhs => rw [← List.map_id hops, List.map_map]
    exact List.map_inj_left
  rw [Chain.reread, Chain.mk.injEq, hmap]
  exact forall₂_congr fun hop _ => Hop.reread_eq_self_iff

/-- A chain arrives as it was sent exactly if it has no more hops than may be sent, its text is valid
UTF-8 and its expiries are held in zones of whole minutes. -/
theorem decodeChain_encodeChain_iff {zone : Grant → ℤ} {c : Chain} {s : Bytes}
    (hrange : ∀ hop ∈ c.hops, hop.grant.InRange) (h : encodeChain zone c = some s) :
    decodeChain s = .ok c ↔ c.hops.length ≤ maxDepth ∧ c.Portable zone := by
  rw [decodeChain_encodeChain hrange h, ← Chain.reread_eq_self_iff]
  split
  · next hlength => simp [hlength]
  · next hlength => simp [hlength]

/-! ## What can arrive -/

/-- The text of a hop is valid UTF-8, and its budget is an `int64`. -/
structure Hop.Received (hop : Hop) : Prop where
  valid : hop.ValidUtf8
  inRange : hop.grant.InRange

/-- What decoding keeps of a budget. -/
def ReadBudget (b : Budget) : Prop := Utf8.valid b.unit = true ∧ Time.IsInt64 b.limit

theorem readBudget_of_decode (old : Budget) (v : Json) (b : Budget)
    (h : Passport.decodeBudget old v = some b) (hold : ReadBudget old) : ReadBudget b := by
  refine decodeRecord_keeps (fun f v r r' hstore hr => ?_) h hold
  cases f with
  | limit =>
      obtain ⟨z, hz, rfl⟩ := Option.map_eq_some_iff.mp hstore
      exact ⟨hr.1, int64_of_decodeInt64 hz hr.2⟩
  | unit =>
      obtain ⟨s, hs, rfl⟩ := Option.map_eq_some_iff.mp hstore
      exact ⟨valid_of_decodeText _ _ _ hs hr.1, hr.2⟩

/-- What decoding keeps of a grant, also of what lies behind its lists. -/
structure WireGrant.Read (w : WireGrant) : Prop where
  tools : ∀ t ∈ w.tools.behind, Utf8.valid t = true
  servers : ∀ t ∈ w.servers.behind, Utf8.valid t = true
  budget : ∀ b ∈ w.budget, ReadBudget b

theorem WireGrant.read_zero : WireGrant.zero.Read where
  tools _ ht := absurd ht List.not_mem_nil
  servers _ ht := absurd ht List.not_mem_nil
  budget b hb := absurd hb (Option.not_mem_none b)

theorem WireGrant.read_of_decode (old : WireGrant) (v : Json) (w : WireGrant)
    (h : old.decode v = some w) (hold : old.Read) : w.Read := by
  refine decodeRecord_keeps (fun f v r r' hstore hr => ?_) h hold
  cases f with
  | tools =>
      obtain ⟨s, hs, rfl⟩ := Option.map_eq_some_iff.mp hstore
      exact { hr with tools := decodeSlice_keeps valid_of_decodeText rfl hs hr.tools }
  | servers =>
      obtain ⟨s, hs, rfl⟩ := Option.map_eq_some_iff.mp hstore
      exact { hr with servers := decodeSlice_keeps valid_of_decodeText rfl hs hr.servers }
  | notAfter =>
      obtain ⟨t, -, rfl⟩ := Option.map_eq_some_iff.mp hstore
      exact { hr with }
  | budget =>
      obtain ⟨b, hb, rfl⟩ := Option.map_eq_some_iff.mp hstore
      exact { hr with budget := decodePointer_keeps readBudget_of_decode ⟨rfl, by decide⟩ hb hr.budget }

structure WireHop.Read (w : WireHop) : Prop where
  delegator : Utf8.valid w.delegator = true
  delegate : Utf8.valid w.delegate = true
  grant : w.grant.Read

theorem WireHop.read_of_decode (old : WireHop) (v : Json) (w : WireHop) (h : old.decode v = some w)
    (hold : old.Read) : w.Read := by
  refine decodeRecord_keeps (fun f v r r' hstore hr => ?_) h hold
  cases f with
  | delegator =>
      obtain ⟨s, hs, rfl⟩ := Option.map_eq_some_iff.mp hstore
      exact { hr with delegator := valid_of_decodeText _ _ _ hs hr.delegator }
  | delegate =>
      obtain ⟨s, hs, rfl⟩ := Option.map_eq_some_iff.mp hstore
      exact { hr with delegate := valid_of_decodeText _ _ _ hs hr.delegate }
  | grant =>
      obtain ⟨g, hg, rfl⟩ := Option.map_eq_some_iff.mp hstore
      exact { hr with grant := WireGrant.read_of_decode _ _ _ hg hr.grant }
  | signature =>
      obtain ⟨b, -, rfl⟩ := Option.map_eq_some_iff.mp hstore
      exact { hr with }

theorem WireGrant.Read.validUtf8 {w : WireGrant} (h : w.Read) : w.grant.ValidUtf8 where
  tools t ht := h.tools t (List.mem_of_mem_take ht)
  servers t ht := h.servers t (List.mem_of_mem_take ht)
  budget b hb := (h.budget b hb).1

/-- Whatever the header holds, the chain that is read from it is text, with budgets of 64 bits. -/
theorem received_of_decodeChain {s : Bytes} {c : Chain} (h : decodeChain s = .ok c) :
    ∀ hop ∈ c.hops, hop.Received := by
  simp only [decodeChain, Except.bind_eq_ok_iff, Except.require_eq_ok_iff] at h
  obtain ⟨hops, hhops, -, -, hc⟩ := h
  obtain rfl := Except.ok.inj hc
  obtain ⟨v, hv⟩ := exists_of_ofHeader hhops
  have hread : ∀ w ∈ hops.behind, w.Read := by
    refine decodeRecord_keeps (I := fun s : Slice WireHop => ∀ w ∈ s.behind, w.Read)
      (fun _ v s s' hstore hs => ?_) hv fun w hw => absurd hw List.not_mem_nil
    exact decodeSlice_keeps WireHop.read_of_decode ⟨rfl, rfl, WireGrant.read_zero⟩ hstore hs
  intro hop hhop
  obtain ⟨w, hw, rfl⟩ := List.mem_map.mp hhop
  have hw := hread w (List.mem_of_mem_take hw)
  exact ⟨⟨⟨hw.delegator, hw.delegate⟩, hw.grant.validUtf8⟩, fun b hb => (hw.grant.budget b hb).2⟩

namespace Sent

/-- A principal gives an agent an hour, by a clock that is an hour ahead of UTC. -/
def grant : Grant :=
  ⟨[Bytes.ascii "read"], [Bytes.ascii "files"], Time.ofUnix 3600, some ⟨5, Bytes.ascii "usd"⟩⟩

def key : Bytes := List.replicate 64 1

def keys : KeyRegistry :=
  ⟨fun id => if id = Bytes.ascii "p" then some (key.drop 32) else none, fun _ => none⟩

def chain : Chain :=
  ⟨[⟨Bytes.ascii "p", Bytes.ascii "a", grant, Sigctx.sign .free .delegationHop key
    (canonical (Bytes.ascii "p") (Bytes.ascii "a") grant [])⟩]⟩

theorem encodeChain_chain : encodeChain (fun _ => 3600) chain =
    some (toHeader (chain.json fun _ => 3600)) :=
  if_pos (List.forall_mem_singleton.mpr (by decide))

theorem inRange_chain : ∀ hop ∈ chain.hops, hop.grant.InRange :=
  List.forall_mem_singleton.mpr (by rintro b ⟨⟩; decide)

theorem portable_chain : chain.Portable fun _ => 3600 := by
  refine List.forall_mem_singleton.mpr ⟨⟨by decide, by decide⟩, ⟨?_, ?_, ?_⟩, by decide⟩
  · exact List.forall_mem_singleton.mpr (by decide)
  · exact List.forall_mem_singleton.mpr (by decide)
  · rintro b ⟨⟩
    decide

end Sent

open Sent in
theorem decodeChain_encodeChain_iff_sample :
    ∃ s, encodeChain (fun _ => 3600) chain = some s ∧ decodeChain s = .ok chain :=
  ⟨_, encodeChain_chain, (decodeChain_encodeChain_iff inRange_chain encodeChain_chain).mpr
    ⟨by decide, portable_chain⟩⟩

/-! ## What no signature covers -/

theorem valid_of_stringsJson_eq {s t : List Bytes} (ht : ∀ x ∈ t, Utf8.valid x = true)
    (h : stringsJson s = stringsJson t) : ∀ x ∈ s, Utf8.valid x = true := by
  intro x hx
  rw [stringsJson, if_neg (List.ne_nil_of_mem hx ∘ List.length_eq_zero_iff.mp), stringsJson] at h
  split at h
  · cases h
  · have hmem : Json.ofString x ∈ (sortedCopy t).map .ofString := by
      rw [← Json.array.inj h]
      exact List.mem_map_of_mem (mem_sortedCopy.mpr hx)
    obtain ⟨y, hy, heq⟩ := List.mem_map.mp hmem
    exact valid_of_ofString_eq (ht y (mem_sortedCopy.mp hy)) heq.symm

/-- A shift by less than a minute shows in the signing input. -/
theorem eq_zero_of_unixOrZero_eq {t k : ℤ} (hlow : -60 < k) (hhigh : k < 60)
    (h : unixOrZero (t + k * Time.second) = unixOrZero t) : k = 0 := by
  have hseconds : (t + k * Time.second) / Time.second = t / Time.second + k :=
    Int.add_mul_ediv_right _ _ (by decide)
  have hunix : unixOrZero t =
      if t = 0 then Time.wrap 0 else Time.wrap (t / Time.second - 62135596800) := rfl
  have hshifted : unixOrZero (t + k * Time.second) = if t + k * Time.second = 0 then Time.wrap 0
      else Time.wrap (t / Time.second + k - 62135596800) := by
    rw [← hseconds]
    rfl
  rw [hunix, hshifted, Time.second] at h
  split at h <;> split at h <;> have hmod := Time.emod_eq_of_wrap_eq h <;> omega

/-- A grant that has lost something is not the grant that was signed. -/
theorem Grant.portable_of_grantJson_eq {g : Grant} (h : grantJson (g.reread zone) = grantJson g) :
    g.Portable zone := by
  have hreread : ∀ s : List Bytes, ∀ x ∈ s.map Json.reread, Utf8.valid x = true := by
    intro s x hx
    obtain ⟨y, -, rfl⟩ := List.mem_map.mp hx
    exact valid_unquote _
  obtain ⟨htools, hservers, hnotAfter, hbudget⟩ := grantJson_eq_iff.mp h
  have hshift : zone g - (zone g).tdiv 60 * 60 = (zone g).tmod 60 := by
    rw [Int.tmod_def]
    omega
  have hlow : -60 < (zone g).tmod 60 := Int.lt_tmod_of_pos _ (by decide)
  have hhigh : (zone g).tmod 60 < 60 := Int.tmod_lt_of_pos _ (by decide)
  rw [Grant.reread, hshift] at hnotAfter
  refine ⟨⟨valid_of_stringsJson_eq (hreread _) htools.symm,
    valid_of_stringsJson_eq (hreread _) hservers.symm, fun b hb => ?_⟩,
    Int.dvd_of_tmod_eq_zero (eq_zero_of_unixOrZero_eq hlow hhigh hnotAfter)⟩
  rw [Grant.reread, Option.mem_def.mp hb] at hbudget
  have hunit : Json.ofString (Json.reread b.unit) = .ofString b.unit := by
    simpa [budgetFields, Passport.rereadBudget, Json.ofFields] using hbudget
  exact valid_of_ofString_eq (valid_unquote _) hunit.symm

theorem Hop.portable_of_canonical_eq {h : Hop} {prev : Bytes}
    (heq : canonical (h.reread zone).delegator (h.reread zone).delegate (h.reread zone).grant prev =
      canonical h.delegator h.delegate h.grant prev) : h.ValidIds ∧ h.grant.Portable zone := by
  obtain ⟨hdelegator, hdelegate, hgrant, -⟩ := of_canonical_eq heq
  exact ⟨⟨valid_of_ofString_eq (valid_unquote _) hdelegator.symm,
    valid_of_ofString_eq (valid_unquote _) hdelegate.symm⟩, Grant.portable_of_grantJson_eq hgrant⟩

/-- Hops whose signatures verify before and after the way have lost nothing. -/
theorem portable_of_authenticHops {S : SignatureScheme} (hS : S.Ideal) {keys keys' : KeyRegistry}
    {root root' : Bytes} {i i' : ℕ} {prev prev' : Option Hop} {hops : List Hop}
    (hprev : prev.map Hop.signature = prev'.map Hop.signature)
    (h : AuthenticHops S keys root i prev hops)
    (h' : AuthenticHops S keys' root' i' prev' (hops.map (Hop.reread zone))) :
    ∀ hop ∈ hops, hop.ValidIds ∧ hop.grant.Portable zone := by
  induction hops generalizing i i' prev prev' with
  | nil => simp
  | cons hop hops ih =>
      obtain ⟨⟨pub, -, hverify⟩, hrest⟩ := h
      obtain ⟨⟨pub', -, hverify'⟩, hrest'⟩ := h'
      have hsame : (some hop).map Hop.signature = (some (hop.reread zone)).map Hop.signature := rfl
      rw [List.forall_mem_cons]
      refine ⟨?_, ih hsame hrest hrest'⟩
      rw [← hprev] at hverify'
      exact Hop.portable_of_canonical_eq (Sigctx.eq_of_verify_verify hS hverify' hverify).2.2

/-- If a chain verifies before and after the way, whatever the two registries, clocks and options, it
has arrived as it was sent: what is lost on the way does not pass as something else. -/
theorem transport_exact {S : SignatureScheme} (hS : S.Ideal) {zone : Grant → ℤ}
    {keys keys' : KeyRegistry} {root root' : Bytes} {now now' : ℤ} {opts opts' : List VerifyOption}
    {c c' : Chain} {s : Bytes} {res res' : Grant × Bytes}
    (hrange : ∀ hop ∈ c.hops, hop.grant.InRange) (hencode : encodeChain zone c = some s)
    (hdecode : decodeChain s = .ok c') (h : verify S keys root now c opts = .ok res)
    (h' : verify S keys' root' now' c' opts' = .ok res') : c' = c := by
  rw [decodeChain_encodeChain hrange hencode] at hdecode
  split at hdecode
  · obtain rfl := Except.ok.inj hdecode
    obtain ⟨⟨-, hsigned⟩, -⟩ := verify_eq_ok_iff.mp h
    obtain ⟨⟨-, hsigned'⟩, -⟩ := verify_eq_ok_iff.mp h'
    exact Chain.reread_eq_self_iff.mpr (portable_of_authenticHops hS rfl hsigned hsigned')
  · cases hdecode

open Sent in
theorem transport_exact_sample :
    ∃ s c', encodeChain (fun _ => 3600) chain = some s ∧ decodeChain s = .ok c' ∧
      verify .free keys (Bytes.ascii "p") 0 c' [] = .ok (grant, Bytes.ascii "a") ∧ c' = chain := by
  have hroot : newRoot .free key (Bytes.ascii "p") (Bytes.ascii "a") grant = .ok chain := rfl
  have hverify : verify .free keys (Bytes.ascii "p") 0 chain [] = .ok (grant, Bytes.ascii "a") :=
    verify_newRoot hroot (by decide) rfl rfl
      (fun msg => (SignatureScheme.ideal_free.verify_iff _ _ _).mpr ⟨key, rfl, rfl⟩) (by decide)
  have hdecode := decodeChain_encodeChain inRange_chain encodeChain_chain
  rw [if_pos (by decide), Chain.reread_eq_self_iff.mpr portable_chain] at hdecode
  exact ⟨_, _, encodeChain_chain, hdecode, hverify,
    transport_exact SignatureScheme.ideal_free inRange_chain encodeChain_chain hdecode hverify hverify⟩

end Sanad.Delegation
