import Mathlib.Logic.Function.Basic
import Sanad.Common.Except
import Sanad.Common.Json.Repeats

/-! # The policy section of the configuration

`policy/config.go`: the rules an operator writes for each server, how they are decoded and checked
(`validate_eq_ok_iff`), and the allowlist they are compiled to (`mem_allowList_iff`).
-/

namespace Sanad.Policy

open Json

/-! ## Rules -/

/-- What a rule does with an action that it names. -/
inductive RuleEffect where
  | allow
  | review
  deriving DecidableEq, Repr

/-- What a rule names. -/
inductive Namespace where
  | methods
  | tools
  deriving DecidableEq, Repr

def RuleEffect.name : RuleEffect → Bytes
  | .allow => Bytes.ascii "allow"
  | .review => Bytes.ascii "review"

def Namespace.name : Namespace → Bytes
  | .methods => Bytes.ascii "methods"
  | .tools => Bytes.ascii "tools"

/-- `Rules` -/
structure Rules where
  methods : List Bytes
  tools : List Bytes
  deriving DecidableEq, Repr

def Rules.zero : Rules := ⟨[], []⟩

def Rules.entries (r : Rules) : Namespace → List Bytes
  | .methods => r.methods
  | .tools => r.tools

/-- `Rules.empty` -/
def Rules.empty (r : Rules) : Bool := r.methods.length = 0 && r.tools.length = 0

/-- `ServerRules` -/
structure ServerRules where
  note : Bytes
  allow : Rules
  review : Rules
  deriving DecidableEq, Repr

def ServerRules.zero : ServerRules := ⟨[], .zero, .zero⟩

def ServerRules.rules (s : ServerRules) : RuleEffect → Rules
  | .allow => s.allow
  | .review => s.review

/-- `Config`: the servers are a map, in the order of their ids. -/
structure Config where
  note : Bytes
  servers : List (Bytes × ServerRules)
  deriving DecidableEq, Repr

def Config.zero : Config := ⟨[], []⟩

/-- The entries of the rules for a server. -/
def Config.entries (c : Config) (server : Bytes) (e : RuleEffect) (n : Namespace) : List Bytes :=
  ((c.servers.lookup server).map fun s => (s.rules e).entries n).getD []

/-! ## Decoding -/

def rulesFields : List (Bytes × Namespace) :=
  [(Bytes.ascii "methods", .methods), (Bytes.ascii "tools", .tools)]

def Rules.store (n : Namespace) (v : Json) (r : Rules) : Option Rules :=
  match n with
  | .methods => (decodeTexts v).map fun names => { r with methods := names }
  | .tools => (decodeTexts v).map fun names => { r with tools := names }

/-- The fields of `ServerRules`. -/
inductive ServerField where
  | note
  | rules (e : RuleEffect)
  deriving DecidableEq

def serverFields : List (Bytes × ServerField) :=
  [(Bytes.ascii "note", .note), (Bytes.ascii "allow", .rules .allow),
    (Bytes.ascii "review", .rules .review)]

def ServerRules.store (f : ServerField) (v : Json) (s : ServerRules) : Option ServerRules :=
  match f with
  | .note => (decodeText s.note v).map fun note => { s with note := note }
  | .rules .allow => (decodeStrict rulesFields Rules.store s.allow v).map fun r => { s with allow := r }
  | .rules .review =>
    (decodeStrict rulesFields Rules.store s.review v).map fun r => { s with review := r }

/-- The rules of one server: an element of a map starts out as the zero value. -/
def ServerRules.decode (v : Json) : Option ServerRules :=
  decodeStrict serverFields ServerRules.store .zero v

/-- The fields of `Config`. -/
inductive ConfigField where
  | note
  | servers
  deriving DecidableEq

def configFields : List (Bytes × ConfigField) :=
  [(Bytes.ascii "note", .note), (Bytes.ascii "servers", .servers)]

def Config.store (f : ConfigField) (v : Json) (c : Config) : Option Config :=
  match f with
  | .note => (decodeText c.note v).map fun note => { c with note := note }
  | .servers => (decodeMap ServerRules.decode c.servers v).map fun m => { c with servers := m }

def Config.decode (old : Config) (v : Json) : Option Config :=
  decodeStrict configFields Config.store old v

/-! ## The last list counts -/

/-- The lists for an effect and a namespace in any of the given values of a server. -/
def listsOf (e : RuleEffect) (n : Namespace) (vs : List Json) : List Json :=
  fieldValues n.name (fieldValues e.name vs)

/-- The members under `servers` that no later `null` takes back. -/
def serversSinceNull (ms : List (StringLit × Json)) : List (StringLit × Json) :=
  (sinceNull (variants (Bytes.ascii "servers") ms)).flatMap members

/-- The list that counts for a server: the last one in its last value. -/
def lastList (ms : List (StringLit × Json)) (server : Bytes) (e : RuleEffect) (n : Namespace) :
    Option Json :=
  (listsOf e n (valuesAt server (serversSinceNull ms)).getLast?.toList).getLast?

theorem Rules.entries_of_decode {r : Rules} {ms : List (StringLit × Json)}
    (h : decodeStrict rulesFields Rules.store .zero (.object ms) = some r) (n : Namespace) :
    r.entries n = ((variants n.name ms).getLast?.map fun v => (elements v).map text).getD [] := by
  have hfield : (n.name, n) ∈ rulesFields := by cases n <;> decide
  have hzero : Rules.zero.entries n = [] := by cases n <;> rfl
  refine foldlM_decodeTexts (hzero ▸ ?_)
  refine decodeRecord_part (by decide) (by decide) hfield (fun r : Rules => r.entries n)
    (fun v _ => decodeTexts v) ?_ ?_ (decodeRecord_of_decodeStrict h)
  · intro v r r' hstore
    cases n with
    | methods =>
        obtain ⟨names, hnames, rfl⟩ := Option.map_eq_some_iff.mp hstore
        exact hnames
    | tools =>
        obtain ⟨names, hnames, rfl⟩ := Option.map_eq_some_iff.mp hstore
        exact hnames
  · intro m v r r' hm hstore
    cases m <;> cases n <;> first
      | exact absurd rfl hm
      | (obtain ⟨names, -, rfl⟩ := Option.map_eq_some_iff.mp hstore
         rfl)

/-- The rules of one effect are merged from all its objects. -/
theorem ServerRules.rules_of_decode {s : ServerRules} {v : Json} (h : ServerRules.decode v = some s)
    (e : RuleEffect) :
    decodeStrict rulesFields Rules.store .zero
      (.object ((variants e.name (members v)).flatMap members)) = some (s.rules e) := by
  have hmembers : decodeStrict serverFields ServerRules.store .zero (.object (members v)) = some s :=
    foldlM_members_of_decodeStrict h
  have hfield : (e.name, ServerField.rules e) ∈ serverFields := by cases e <;> decide
  have hzero : ServerRules.zero.rules e = .zero := by cases e <;> rfl
  refine decodeStrict_merge (hzero ▸ ?_)
  refine decodeRecord_part (by decide) (by decide) hfield (fun s : ServerRules => s.rules e)
    (fun v r => decodeStrict rulesFields Rules.store r v) ?_ ?_ (decodeRecord_of_decodeStrict hmembers)
  · intro v s s' hstore
    cases e with
    | allow =>
        obtain ⟨r, hr, rfl⟩ := Option.map_eq_some_iff.mp hstore
        exact hr
    | review =>
        obtain ⟨r, hr, rfl⟩ := Option.map_eq_some_iff.mp hstore
        exact hr
  · intro g v s s' hg hstore
    rcases g with _ | (_ | _) <;> cases e <;> first
      | exact absurd rfl hg
      | (obtain ⟨r, -, rfl⟩ := Option.map_eq_some_iff.mp hstore
         rfl)

theorem Config.servers_of_decode {c : Config} {ms : List (StringLit × Json)}
    (h : Config.decode .zero (.object ms) = some c) :
    decodeMap ServerRules.decode [] (.object (serversSinceNull ms)) = some c.servers := by
  refine decodeMap_merge ?_
  refine decodeRecord_part (f := ConfigField.servers) (by decide) (by decide) (by decide)
    Config.servers (fun v m => decodeMap ServerRules.decode m v) ?_ ?_ (decodeRecord_of_decodeStrict h)
  · intro v c c' hstore
    obtain ⟨m, hm, rfl⟩ := Option.map_eq_some_iff.mp hstore
    exact hm
  · intro g v c c' hg hstore
    cases g with
    | note =>
        obtain ⟨note, -, rfl⟩ := Option.map_eq_some_iff.mp hstore
        rfl
    | servers => exact absurd rfl hg

/-- The rules that are decoded for a server are those of the list that counts. -/
theorem Config.entries_of_decode {c : Config} {ms : List (StringLit × Json)}
    (h : Config.decode .zero (.object ms) = some c) (server : Bytes) (e : RuleEffect) (n : Namespace) :
    c.entries server e n =
      ((lastList ms server e n).map fun v => (elements v).map text).getD [] := by
  have hlookup := lookup_of_decodeMap (Config.servers_of_decode h) server
  rw [Config.entries, lastList]
  cases hlast : (valuesAt server (serversSinceNull ms)).getLast? with
  | none =>
      rw [hlast] at hlookup
      rw [Option.map_eq_none_iff.mp hlookup.symm]
      rfl
  | some v =>
      rw [hlast] at hlookup
      obtain ⟨s, hs, hdecode⟩ := Option.map_eq_some_iff.mp hlookup.symm
      rw [hs, Option.map_some, Option.getD_some,
        Rules.entries_of_decode (ServerRules.rules_of_decode hdecode.symm e) n, listsOf, fieldValues,
        fieldValues, Option.toList_some, List.flatMap_singleton]

/-- The servers of a section that is decoded are in the order of their ids. -/
theorem Config.keyOrder_of_decode {c : Config} {ms : List (StringLit × Json)}
    (h : Config.decode .zero (.object ms) = some c) : KeyOrder c.servers :=
  keyOrder_of_decodeMap (Config.servers_of_decode h)

/-! ## Validation -/

/-- The errors of `Config.Validate`. -/
inductive ConfigError where
  /-- `policy: no servers configured: …` -/
  | noServers
  /-- `policy: servers: a server id is empty; …` -/
  | emptyServerID
  /-- `policy: server %q: server ids must not have leading or trailing whitespace …` -/
  | serverIDSpace (server : Bytes)
  /-- `policy: server %q: no rules: …` -/
  | noRules (server : Bytes)
  /-- `policy: server %q: %s[%d] is empty; …` -/
  | emptyEntry (server field : Bytes) (i : ℕ)
  /-- `policy: server %q: %s[%d] = %q has leading or trailing whitespace; …` -/
  | entrySpace (server field : Bytes) (i : ℕ) (entry : Bytes)
  /-- `policy: server %q: %s lists %q twice; …` -/
  | duplicate (server field entry : Bytes)
  /-- `policy: server %q: %q is in both allow.%s and review.%s; …` -/
  | bothSides (server entry ns : Bytes)
  deriving DecidableEq, Repr

/-- `namedList`: the entries of one of the four lists, with the path of its field. -/
structure NamedList where
  field : Bytes
  entries : List Bytes

/-- `ServerRules.lists` -/
def ServerRules.lists (s : ServerRules) : List NamedList :=
  [⟨Bytes.ascii "allow.methods", s.allow.methods⟩, ⟨Bytes.ascii "allow.tools", s.allow.tools⟩,
    ⟨Bytes.ascii "review.methods", s.review.methods⟩, ⟨Bytes.ascii "review.tools", s.review.tools⟩]

/-- The loop of `namedList.validate`, from index `i` on. -/
def validateEntries (server field : Bytes) : ℕ → List Bytes → List Bytes → Except ConfigError Unit
  | _, _, [] => .ok ()
  | i, seen, e :: es => do
    Except.require (e ≠ []) (.emptyEntry server field i)
    Except.require (Utf8.trimSpace e = e) (.entrySpace server field i e)
    Except.require (e ∉ seen) (.duplicate server field e)
    validateEntries server field (i + 1) (e :: seen) es

/-- `namedList.validate` -/
def NamedList.validate (l : NamedList) (server : Bytes) : Except ConfigError Unit :=
  validateEntries server l.field 0 [] l.entries

/-- `bothSides` -/
def bothSides (server ns : Bytes) (allow review : List Bytes) : Except ConfigError Unit :=
  match allow.find? fun a => a ∈ review with
  | some a => .error (.bothSides server a ns)
  | none => .ok ()

/-- The body of the loop of `Config.Validate`. -/
def ServerRules.validate (id : Bytes) (s : ServerRules) : Except ConfigError Unit := do
  Except.require (Utf8.trimSpace id ≠ []) .emptyServerID
  Except.require (Utf8.trimSpace id = id) (.serverIDSpace id)
  Except.require (¬(s.allow.empty && s.review.empty) = true) (.noRules id)
  forM s.lists fun l => l.validate id
  bothSides id (Bytes.ascii "tools") s.allow.tools s.review.tools
  bothSides id (Bytes.ascii "methods") s.allow.methods s.review.methods

/-- `Config.Validate`; the nil section is `none`. -/
def Config.validate (c : Option Config) : Except ConfigError Unit :=
  match c with
  | none => .error .noServers
  | some c => do
    Except.require (c.servers.length ≠ 0) .noServers
    forM c.servers fun e => e.2.validate e.1

/-- A list that names each thing once, and nothing that could not match. -/
structure ValidEntries (es : List Bytes) : Prop where
  ne_nil : ∀ e ∈ es, e ≠ []
  trimmed : ∀ e ∈ es, Utf8.trimSpace e = e
  nodup : es.Nodup

/-- Rules that mean what they read as. -/
structure ServerRules.Valid (id : Bytes) (s : ServerRules) : Prop where
  id_ne_nil : id ≠ []
  id_trimmed : Utf8.trimSpace id = id
  nonempty : ∃ e n, (s.rules e).entries n ≠ []
  entries : ∀ e n, ValidEntries ((s.rules e).entries n)
  disjoint : ∀ n, (s.allow.entries n).Disjoint (s.review.entries n)

theorem validateEntries_eq_ok_iff {server field : Bytes} {i : ℕ} {seen es : List Bytes} :
    validateEntries server field i seen es = .ok () ↔ ValidEntries es ∧ es.Disjoint seen := by
  induction es generalizing i seen with
  | nil => exact ⟨fun _ => ⟨⟨by simp, by simp, List.nodup_nil⟩, List.disjoint_nil_left _⟩, fun _ => rfl⟩
  | cons e es ih =>
      simp only [validateEntries, Except.check_bind_eq_ok_iff, Except.require_eq_ok_iff, ih]
      constructor
      · rintro ⟨hne, htrim, hseen, hvalid, hdisjoint⟩
        obtain ⟨hnew, hdisjoint⟩ := List.disjoint_cons_right.mp hdisjoint
        exact ⟨⟨List.forall_mem_cons.mpr ⟨hne, hvalid.ne_nil⟩,
          List.forall_mem_cons.mpr ⟨htrim, hvalid.trimmed⟩, List.nodup_cons.mpr ⟨hnew, hvalid.nodup⟩⟩,
          List.disjoint_cons_left.mpr ⟨hseen, hdisjoint⟩⟩
      · rintro ⟨⟨hne, htrim, hnodup⟩, hdisjoint⟩
        rw [List.forall_mem_cons] at hne htrim
        rw [List.nodup_cons] at hnodup
        rw [List.disjoint_cons_left] at hdisjoint
        exact ⟨hne.1, htrim.1, hdisjoint.1, ⟨hne.2, htrim.2, hnodup.2⟩,
          List.disjoint_cons_right.mpr ⟨hnodup.1, hdisjoint.2⟩⟩

theorem bothSides_eq_ok_iff {server ns : Bytes} {allow review : List Bytes} :
    bothSides server ns allow review = .ok () ↔ allow.Disjoint review := by
  rw [bothSides]
  cases hfind : allow.find? fun a => a ∈ review with
  | none => simpa [List.disjoint_left] using hfind
  | some a =>
      have hreview : a ∈ review := by simpa using List.find?_some hfind
      have hallow : a ∈ allow := List.mem_of_find?_eq_some hfind
      simp only [reduceCtorEq, false_iff]
      exact fun hdisjoint => hdisjoint hallow hreview

theorem ServerRules.validate_eq_ok_iff {id : Bytes} {s : ServerRules} :
    s.validate id = .ok () ↔ s.Valid id := by
  have hempty : ¬(s.allow.empty && s.review.empty) = true ↔ ∃ e n, (s.rules e).entries n ≠ [] := by
    constructor
    · intro h
      by_contra hnone
      push Not at hnone
      refine h ?_
      simp [Rules.empty, show s.allow.methods = [] from hnone .allow .methods,
        show s.allow.tools = [] from hnone .allow .tools,
        show s.review.methods = [] from hnone .review .methods,
        show s.review.tools = [] from hnone .review .tools]
    · rintro ⟨e, n, hne⟩ h
      simp only [Rules.empty, Bool.and_eq_true, decide_eq_true_eq, List.length_eq_zero_iff] at h
      obtain ⟨⟨h₁, h₂⟩, h₃, h₄⟩ := h
      cases e <;> cases n <;> exact hne ‹_›
  have hlists : (∀ l ∈ s.lists, l.validate id = .ok ()) ↔
      ∀ e n, ValidEntries ((s.rules e).entries n) := by
    simp only [ServerRules.lists, NamedList.validate, List.forall_mem_cons, List.not_mem_nil,
      validateEntries_eq_ok_iff, List.disjoint_nil_right, and_true]
    constructor
    · rintro ⟨h₁, h₂, h₃, h₄, -⟩ e n
      cases e <;> cases n <;> assumption
    · intro h
      exact ⟨h .allow .methods, h .allow .tools, h .review .methods, h .review .tools, by simp⟩
  simp only [ServerRules.validate, Except.check_bind_eq_ok_iff, Except.require_eq_ok_iff, hempty,
    Except.forM_eq_ok_iff, hlists, bothSides_eq_ok_iff]
  constructor
  · rintro ⟨hne, htrim, hnonempty, hentries, htools, hmethods⟩
    refine ⟨htrim ▸ hne, htrim, hnonempty, hentries, fun n => ?_⟩
    cases n with
    | methods => exact hmethods
    | tools => exact htools
  · intro h
    exact ⟨h.id_trimmed.symm ▸ h.id_ne_nil, h.id_trimmed, h.nonempty, h.entries, h.disjoint .tools,
      h.disjoint .methods⟩

/-- `Validate` accepts exactly the sections in which the rules of every server mean what they read as,
and in which there are any. -/
theorem Config.validate_eq_ok_iff {c : Option Config} :
    Config.validate c = .ok () ↔
      ∃ c', c = some c' ∧ c'.servers ≠ [] ∧ ∀ e ∈ c'.servers, e.2.Valid e.1 := by
  cases c with
  | none => simp [Config.validate]
  | some c =>
      simp [Config.validate, Except.check_bind_eq_ok_iff, Except.require_eq_ok_iff,
        Except.forM_eq_ok_iff, ServerRules.validate_eq_ok_iff]

/-- No rule of a valid section names the empty string. -/
theorem Config.nil_notMem_entries {c : Config} (h : Config.validate (some c) = .ok ())
    (server : Bytes) (e : RuleEffect) (n : Namespace) : [] ∉ c.entries server e n := by
  obtain ⟨c', hc, -, hvalid⟩ := Config.validate_eq_ok_iff.mp h
  obtain rfl := Option.some.inj hc
  rw [Config.entries]
  cases hlookup : c.servers.lookup server with
  | none => exact List.not_mem_nil
  | some s =>
      obtain ⟨l₁, l₂, hservers, -⟩ := List.lookup_eq_some_iff.mp hlookup
      have hmem : (server, s) ∈ c.servers := by simp [hservers]
      exact fun hnil => ((hvalid _ hmem).entries e n).ne_nil [] hnil rfl

/-! ## The allowlist -/

/-- `ruleSet`: the names of one namespace, as sets. -/
structure RuleSet where
  allow : List Bytes
  review : List Bytes

/-- `serverRules` -/
structure ServerSets where
  tools : RuleSet
  methods : RuleSet

def ServerSets.zero : ServerSets := ⟨⟨[], []⟩, ⟨[], []⟩⟩

def ServerSets.entries (r : ServerSets) : RuleEffect → Namespace → List Bytes
  | .allow, .methods => r.methods.allow
  | .allow, .tools => r.tools.allow
  | .review, .methods => r.methods.review
  | .review, .tools => r.tools.review

/-- `AllowList` -/
structure AllowList where
  servers : Bytes → Option ServerSets

/-- `NewAllowList` -/
def newAllowList : AllowList := ⟨fun _ => none⟩

def AllowList.entries (a : AllowList) (server : Bytes) (e : RuleEffect) (n : Namespace) : List Bytes :=
  ((a.servers server).map fun r => r.entries e n).getD []

/-- `AllowList.rules`, and what is written through the pointer that it returns. -/
def AllowList.updateRules (a : AllowList) (server : Bytes) (f : ServerSets → ServerSets) : AllowList :=
  ⟨Function.update a.servers server (some (f ((a.servers server).getD .zero)))⟩

/-- `add` -/
def add (set names : List Bytes) : List Bytes := set ++ names

/-- `AllowList.Allow` -/
def AllowList.allow (a : AllowList) (server : Bytes) (tools : List Bytes) : AllowList :=
  a.updateRules server fun r => { r with tools := { r.tools with allow := add r.tools.allow tools } }

/-- `AllowList.Review` -/
def AllowList.review (a : AllowList) (server : Bytes) (tools : List Bytes) : AllowList :=
  a.updateRules server fun r => { r with tools := { r.tools with review := add r.tools.review tools } }

/-- `AllowList.AllowMethods` -/
def AllowList.allowMethods (a : AllowList) (server : Bytes) (methods : List Bytes) : AllowList :=
  a.updateRules server fun r =>
    { r with methods := { r.methods with allow := add r.methods.allow methods } }

/-- `AllowList.ReviewMethods` -/
def AllowList.reviewMethods (a : AllowList) (server : Bytes) (methods : List Bytes) : AllowList :=
  a.updateRules server fun r =>
    { r with methods := { r.methods with review := add r.methods.review methods } }

/-- The body of the loop of `Config.AllowList`. -/
def AllowList.addServer (a : AllowList) (id : Bytes) (s : ServerRules) : AllowList :=
  (((a.allow id s.allow.tools).allowMethods id s.allow.methods).review id
    s.review.tools).reviewMethods id s.review.methods

/-- `Config.AllowList` -/
def Config.allowList (c : Option Config) : AllowList :=
  match c with
  | none => newAllowList
  | some c => c.servers.foldl (fun a e => a.addServer e.1 e.2) newAllowList

/-- What the rules of one server add to the allowlist. -/
theorem AllowList.entries_addServer (a : AllowList) (id : Bytes) (s : ServerRules) (server : Bytes)
    (e : RuleEffect) (n : Namespace) :
    (a.addServer id s).entries server e n =
      a.entries server e n ++ if server = id then (s.rules e).entries n else [] := by
  by_cases hserver : server = id
  · subst hserver
    cases hrules : a.servers server <;> cases e <;> cases n <;>
      simp [AllowList.addServer, AllowList.allow, AllowList.allowMethods, AllowList.review,
        AllowList.reviewMethods, AllowList.updateRules, AllowList.entries, ServerSets.entries,
        ServerSets.zero, ServerRules.rules, Rules.entries, add, hrules]
  · simp [AllowList.addServer, AllowList.allow, AllowList.allowMethods, AllowList.review,
      AllowList.reviewMethods, AllowList.updateRules, AllowList.entries, hserver]

/-- The allowlist of a section has exactly the entries of its rules. -/
theorem mem_allowList_iff {c : Config} (hkeys : KeyOrder c.servers) {server x : Bytes} {e : RuleEffect}
    {n : Namespace} :
    x ∈ (Config.allowList (some c)).entries server e n ↔ x ∈ c.entries server e n := by
  have hfold : ∀ (m : List (Bytes × ServerRules)) (a : AllowList), KeyOrder m →
      (x ∈ (m.foldl (fun a e => a.addServer e.1 e.2) a).entries server e n ↔
        x ∈ a.entries server e n ∨
          x ∈ ((m.lookup server).map fun s => (s.rules e).entries n).getD []) := by
    intro m
    induction m with
    | nil => simp
    | cons f m ih =>
        intro a hm
        obtain ⟨hfirst, hrest⟩ := List.pairwise_cons.mp hm
        rw [List.foldl_cons, ih _ hrest, AllowList.entries_addServer, List.mem_append, or_assoc,
          lookup_cons_eq_ite]
        by_cases hserver : server = f.1
        · -- no later entry of the map is for this server
          have hnone : m.lookup server = none := by
            rw [List.lookup_eq_none_iff]
            intro g hg
            rw [hserver, bne_iff_ne]
            exact fun heq => List.lt_irrefl _ (heq ▸ hfirst g hg)
          rw [if_pos hserver, if_pos hserver, hnone]
          simp
        · rw [if_neg hserver, if_neg hserver]
          simp
  rw [Config.allowList, hfold _ _ hkeys]
  simp [newAllowList, AllowList.entries, Config.entries]

end Sanad.Policy
