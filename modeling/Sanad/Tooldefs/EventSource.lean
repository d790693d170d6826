import Sanad.Tooldefs.Chunking

/-! # What the client sees of a stream

The client reads the stream by the rules of the WHATWG standard: a line ends with LF, with CRLF or with
a CR on its own, and a byte order mark at the very start is dropped. The watcher of `tooldefs/sse.go`
knows LF and CRLF alone. This module has the parser of the standard, with both points as options, and
shows that the watcher is the parser without them.
-/

namespace Sanad.Tooldefs

/-! ## The parser of the standard -/

/-- What a reader of event streams makes of a CR on its own and of a byte order mark at the start. -/
structure Framing where
  /-- A CR that no LF follows ends a line. -/
  loneReturn : Bool
  /-- The byte order mark is dropped. -/
  dropsMark : Bool

/-- The rules of the standard. -/
def Framing.whatwg : Framing := ⟨true, true⟩

/-- Both are bytes like any other. -/
def Framing.plain : Framing := ⟨false, false⟩

/-- U+FEFF -/
def byteOrderMark : Bytes := [0xef, 0xbb, 0xbf]

/-- A stream with LF as its only line end. -/
def lineFeeds (loneReturn : Bool) : Bytes → Bytes
  | [] => []
  | c :: b =>
    if c = 0x0d then
      if b.head? = some 0x0a then lineFeeds loneReturn b
      else (if loneReturn then 0x0a else c) :: lineFeeds loneReturn b
    else c :: lineFeeds loneReturn b

/-- The complete lines of a stream. -/
def Framing.lines (f : Framing) (stream : Bytes) : List Bytes :=
  let stream :=
    if f.dropsMark ∧ byteOrderMark.isPrefixOf stream then stream.drop 3 else stream
  ((lineFeeds f.loneReturn stream).splitOn 0x0a).dropLast

/-- A value without one leading space. -/
def withoutSpace : Bytes → Bytes
  | 0x20 :: rest => rest
  | rest => rest

/-- The value of a field: what follows the colon. -/
def fieldValue (line : Bytes) : Bytes := withoutSpace ((line.dropWhile (· ≠ 0x3a)).drop 1)

/-- One line, for the data buffer: the buffer after it, and the data of the event it dispatches. A line
without a colon is a field with an empty value, and one that starts with a colon is a comment. -/
def receive (data line : Bytes) : Bytes × List Bytes :=
  if line = [] then ([], if data = [] then [] else [data.dropLast])
  else if line.takeWhile (· ≠ 0x3a) = Bytes.ascii "data" then
    (data ++ fieldValue line ++ [0x0a], [])
  else (data, [])

/-- The data of the events that are dispatched for the lines. -/
def dispatched : Bytes → List Bytes → List Bytes
  | _, [] => []
  | data, line :: lines => (receive data line).2 ++ dispatched (receive data line).1 lines

/-- Data without its line feeds. -/
def withoutFeeds (data : Bytes) : Bytes := data.filter (· ≠ 0x0a)

/-- The events of a stream that have more than line feeds for their data, given by what is left of the
data without them. -/
def shown (f : Framing) (stream : Bytes) : List Bytes :=
  ((dispatched [] (f.lines stream)).map withoutFeeds).filter (· ≠ [])

/-! ## The watcher -/

/-- The data of the events that the watcher passes on. -/
def passed (calls : List Seen) : List Bytes :=
  calls.filterMap fun
    | .event data => some data
    | .overflow => none

/-- Every event that the client is shown is passed on, in order and with the same data up to its line
feeds. -/
def SeesAll (max : ℤ) (chunks : List Bytes) : Prop :=
  (shown .whatwg chunks.flatten).Sublist ((passed (seen max chunks)).map withoutFeeds)

instance (max : ℤ) (chunks : List Bytes) : Decidable (SeesAll max chunks) :=
  inferInstanceAs (Decidable (List.Sublist _ _))

/-- The data buffer stays within the limit. It has one line feed more than the data. -/
def EventsWithin (max : ℤ) : Bytes → List Bytes → Prop
  | _, [] => True
  | data, line :: lines =>
    (receive data line).1.length ≤ max + 1 ∧ EventsWithin max (receive data line).1 lines

instance EventsWithin.decidable (max : ℤ) : ∀ data lines, Decidable (EventsWithin max data lines)
  | _, [] => .isTrue trivial
  | data, line :: lines =>
    have := EventsWithin.decidable max (receive data line).1 lines
    inferInstanceAs (Decidable (_ ∧ _))

/-- The lines and the events of a stream stay within the limit. -/
structure Within (max : ℤ) (stream : Bytes) : Prop where
  lines : ∀ line ∈ stream.splitOn 0x0a, line.length ≤ max
  events : EventsWithin max [] (Framing.plain.lines stream)

/-! ## Lines -/

theorem trimReturn_cons {c d : UInt8} {line : Bytes} :
    trimReturn (c :: d :: line) = c :: trimReturn (d :: line) := by
  rw [trimReturn, trimReturn, List.getLast?_cons_cons]
  split
  · rfl
  · rfl

theorem not_mem_trimReturn {line : Bytes} (hline : 0x0a ∉ line) : 0x0a ∉ trimReturn line := by
  rw [trimReturn]
  split
  · exact fun h => hline (List.mem_of_mem_dropLast h)
  · exact hline

/-- A CR before an LF is no part of the line, any other one is. -/
theorem lineFeeds_line {line : Bytes} (hline : 0x0a ∉ line) (b : Bytes) :
    lineFeeds false (line ++ 0x0a :: b) = trimReturn line ++ 0x0a :: lineFeeds false b := by
  induction line with
  | nil => rfl
  | cons c line ih =>
      have hrest := ih fun h => hline (List.mem_cons_of_mem _ h)
      rw [List.cons_append, lineFeeds, hrest]
      cases line with
      | nil =>
          by_cases hc : c = 0x0d
          · subst hc
            rfl
          · simp [hc, trimReturn]
      | cons d line =>
          have hd : d ≠ 0x0a := fun h => hline (by simp [h])
          rw [trimReturn_cons]
          simp [hd]

theorem not_mem_lineFeeds {b : Bytes} (hb : 0x0a ∉ b) : 0x0a ∉ lineFeeds false b := by
  induction b with
  | nil => exact hb
  | cons c b ih =>
      have hrest := ih fun h => hb (List.mem_cons_of_mem _ h)
      have hc : c ≠ 0x0a := fun h => hb (by simp [h])
      have hcons : 0x0a ∉ c :: lineFeeds false b := by
        rw [List.mem_cons, not_or]
        exact ⟨hc.symm, hrest⟩
      rw [lineFeeds]
      simp only [Bool.false_eq_true, if_false]
      split
      · split
        · exact hrest
        · exact hcons
      · exact hcons

/-- The lines of the plain reading are the lines that the watcher feeds. -/
theorem lines_plain (stream : Bytes) :
    Framing.plain.lines stream = (stream.splitOn 0x0a).dropLast.map trimReturn := by
  have key : ∀ lines : List Bytes, lines ≠ [] → (∀ line ∈ lines, 0x0a ∉ line) →
      ((lineFeeds false ([0x0a].intercalate lines)).splitOn 0x0a).dropLast =
        lines.dropLast.map trimReturn := by
    intro lines
    induction lines with
    | nil => simp
    | cons line lines ih =>
        intro _ hlines
        have hline : 0x0a ∉ line := hlines line List.mem_cons_self
        cases lines with
        | nil =>
            rw [List.intercalate_singleton, List.splitOn_eq_singleton (not_mem_lineFeeds hline)]
            rfl
        | cons next lines =>
            rw [List.intercalate_cons_cons, List.append_assoc, List.singleton_append,
              lineFeeds_line hline,
              List.splitOn_append_cons_self_of_not_mem (not_mem_trimReturn hline),
              List.dropLast_cons_of_ne_nil (List.splitOn_ne_nil _ _),
              ih (by simp) fun l hl => hlines l (List.mem_cons_of_mem _ hl)]
            rfl
  have hlines := key (stream.splitOn 0x0a) (List.splitOn_ne_nil _ _) fun _ =>
    Bytes.not_mem_of_mem_splitOn
  rw [List.intercalate_splitOn] at hlines
  simpa [Framing.lines, Framing.plain] using hlines

/-! ## Events -/

theorem withoutFeeds_append (a b : Bytes) : withoutFeeds (a ++ b) = withoutFeeds a ++ withoutFeeds b :=
  List.filter_append ..

theorem withoutFeeds_eq_self {b : Bytes} (hb : 0x0a ∉ b) : withoutFeeds b = b := by
  rw [withoutFeeds, List.filter_eq_self]
  intro c hc
  simpa using fun h : c = 0x0a => hb (h ▸ hc)

theorem dataOf_append (rest : Bytes) :
    dataOf (Bytes.ascii "data:" ++ rest) = some (withoutSpace rest) := by
  rw [dataOf, if_pos (List.isPrefixOf_iff_prefix.mpr ⟨rest, rfl⟩)]
  have hdrop : (Bytes.ascii "data:" ++ rest).drop 5 = rest := rfl
  rw [hdrop]
  unfold withoutSpace
  split <;> split <;> simp_all

/-- A line with data adds the same to the buffer of the client as to that of the watcher. -/
theorem receive_of_dataOf_eq_some {line d : Bytes} (h : dataOf line = some d) (data : Bytes) :
    receive data line = (data ++ d ++ [0x0a], []) ∧ (0x0a ∉ line → 0x0a ∉ d) := by
  by_cases hprefix : Bytes.ascii "data:" <+: line
  · obtain ⟨rest, rfl⟩ := hprefix
    rw [dataOf_append, Option.some.injEq] at h
    subst h
    refine ⟨rfl, fun hline hmem => hline (List.mem_append_right _ ?_)⟩
    rw [withoutSpace.eq_def] at hmem
    split at hmem
    · exact List.mem_cons_of_mem _ hmem
    · exact hmem
  · rw [dataOf, if_neg (by rwa [List.isPrefixOf_iff_prefix])] at h
    cases h

/-- Any other line adds nothing, or the empty value of a field without a colon. -/
theorem receive_of_dataOf_eq_none {line : Bytes} (hline : line ≠ []) (h : dataOf line = none)
    (data : Bytes) : receive data line = (data, []) ∨ receive data line = (data ++ [0x0a], []) := by
  rw [receive, if_neg hline]
  split
  · next hfield =>
      -- the field is complete, or a colon would follow it
      cases hrest : line.dropWhile (· ≠ 0x3a) with
      | nil =>
          right
          rw [fieldValue, hrest]
          simp [withoutSpace]
      | cons c rest =>
          have hcolon := List.head?_dropWhile_not (· ≠ (0x3a : UInt8)) line
          rw [hrest] at hcolon
          obtain rfl : c = 0x3a := by simpa using hcolon
          have hdata : line = Bytes.ascii "data:" ++ rest := by
            rw [← List.takeWhile_append_dropWhile (p := (· ≠ (0x3a : UInt8))) (l := line), hfield,
              hrest]
            rfl
          rw [hdata, dataOf_append] at h
          cases h
  · exact .inl rfl

/-- What the buffer of the watcher has to do with that of the client. -/
structure Mirrors (event data : Bytes) : Prop where
  same : withoutFeeds event = withoutFeeds data
  starts : event = [] ∨ withoutFeeds event ≠ []
  ends : data = [] ∨ ∃ front, data = front ++ [0x0a]
  shorter : event = [] ∨ event.length < data.length

namespace Mirrors

variable {max : ℤ} {event data line d : Bytes}

theorem nil : Mirrors [] [] := ⟨rfl, .inl rfl, .inl rfl, .inl rfl⟩

/-- The last line feed of the buffer is not part of the data. -/
theorem withoutFeeds_dropLast (h : Mirrors event data) :
    withoutFeeds data.dropLast = withoutFeeds data := by
  rcases h.ends with rfl | ⟨front, rfl⟩
  · rfl
  · rw [List.dropLast_concat, withoutFeeds_append]
    simp [withoutFeeds]

/-- A field without a colon. -/
theorem lineFeed (h : Mirrors event data) : Mirrors event (data ++ [0x0a]) where
  same := by
    rw [h.same, withoutFeeds_append]
    simp [withoutFeeds]
  starts := h.starts
  ends := .inr ⟨data, rfl⟩
  shorter := by
    rw [List.length_append]
    exact h.shorter.imp_right fun hlt => by omega

/-- The watcher joins the lines of an event where the client ends them. -/
theorem join (h : Mirrors event data) (hd : 0x0a ∉ d) :
    Mirrors (Watcher.join ⟨[], event, false⟩ d) (data ++ d ++ [0x0a]) := by
  have hfree := withoutFeeds_eq_self hd
  have hdata : withoutFeeds (data ++ d ++ [0x0a]) = withoutFeeds data ++ d := by
    rw [withoutFeeds_append, withoutFeeds_append, hfree]
    simp [withoutFeeds]
  rw [Watcher.join]
  by_cases hevent : event = []
  · subst hevent
    have hnil : withoutFeeds data = [] := h.same.symm
    refine ⟨?_, ?_, .inr ⟨_, rfl⟩, .inr ?_⟩
    · rw [hdata, hnil]
      exact hfree
    · simp only [if_true, List.nil_append, hfree]
      exact eq_or_ne d []
    · simp only [if_true, List.nil_append, List.length_append, List.length_singleton]
      omega
  · have hstarts := h.starts.resolve_left hevent
    have hlt := h.shorter.resolve_left hevent
    have hfeeds : withoutFeeds (event ++ [0x0a] ++ d) = withoutFeeds event ++ d := by
      rw [withoutFeeds_append, withoutFeeds_append, hfree]
      simp [withoutFeeds]
    simp only [if_neg hevent]
    refine ⟨by rw [hfeeds, hdata, h.same], .inr ?_, .inr ⟨_, rfl⟩, .inr ?_⟩
    · rw [hfeeds]
      exact List.append_ne_nil_of_left_ne_nil hstarts _
    · simp only [List.length_append, List.length_singleton]
      omega

/-- A blank line: both dispatch, unless the data is nothing but line feeds. -/
theorem blank (h : Mirrors event data) :
    (passed (Watcher.feed max ⟨[], event, false⟩ []).2).map withoutFeeds =
      ((receive data []).2.map withoutFeeds).filter (· ≠ []) := by
  rw [Watcher.feed, if_pos rfl, receive, if_pos rfl]
  by_cases hevent : event = []
  · subst hevent
    have hnil : withoutFeeds data = [] := h.same.symm
    by_cases hd : data = []
    · simp [passed, hd]
    · simp [passed, hd, h.withoutFeeds_dropLast, hnil]
  · have hstarts := h.starts.resolve_left hevent
    have hd : data ≠ [] := by
      rintro rfl
      exact hstarts h.same
    rw [h.same] at hstarts
    simp [passed, hevent, hd, h.withoutFeeds_dropLast, h.same, hstarts]

/-- One line that leaves the buffer within the limit. -/
theorem feed (h : Mirrors event data) (hline : 0x0a ∉ line)
    (hmax : (receive data line).1.length ≤ max + 1) :
    (Watcher.feed max ⟨[], event, false⟩ line).1.stopped = false ∧
    Mirrors (Watcher.feed max ⟨[], event, false⟩ line).1.event (receive data line).1 ∧
    (passed (Watcher.feed max ⟨[], event, false⟩ line).2).map withoutFeeds =
      ((receive data line).2.map withoutFeeds).filter (· ≠ []) := by
  by_cases hempty : line = []
  · subst hempty
    refine ⟨?_, ?_, h.blank⟩
    · rw [Watcher.feed, if_pos rfl]
      split
      · rfl
      · rfl
    · rw [Watcher.feed, if_pos rfl, receive, if_pos rfl]
      split
      · next hevent =>
          obtain rfl : event = [] := hevent
          exact nil
      · exact nil
  · rw [Watcher.feed, if_neg hempty]
    cases hdata : dataOf line with
    | none =>
        rcases receive_of_dataOf_eq_none hempty hdata data with hreceive | hreceive
        · rw [hreceive]
          exact ⟨rfl, h, rfl⟩
        · rw [hreceive]
          exact ⟨rfl, h.lineFeed, rfl⟩
    | some d =>
        obtain ⟨hreceive, hfree⟩ := receive_of_dataOf_eq_some hdata data
        have hjoin := h.join (hfree hline)
        simp only [hreceive] at hmax ⊢
        -- the watcher puts a line feed between data lines and not after each: its buffer is shorter
        have hfits : ¬ (Watcher.join ⟨[], event, false⟩ d).length > max := by
          rcases hjoin.shorter with hnil | hlt
          · rw [hnil]
            simp only [List.length_append, List.length_singleton, List.length_nil] at hmax ⊢
            omega
          · omega
        rw [if_neg hfits]
        exact ⟨rfl, hjoin, rfl⟩

end Mirrors

/-- The events that the watcher passes on are those of the plain reading. -/
theorem passed_calls {max : ℤ} {event data : Bytes} {lines : List Bytes} {out : List Seen}
    (hcalls : Calls max event lines out) (h : Mirrors event data)
    (hlines : ∀ line ∈ lines, 0x0a ∉ line ∧ line.length ≤ max)
    (hevents : EventsWithin max data (lines.dropLast.map trimReturn)) :
    (passed out).map withoutFeeds =
      ((dispatched data (lines.dropLast.map trimReturn)).map withoutFeeds).filter (· ≠ []) := by
  induction hcalls generalizing data with
  | rest => rfl
  | cut long =>
      have hlen := (hlines _ List.mem_cons_self).2
      exact absurd long.2 (by omega)
  | @stopped event line lines complete stops =>
      rw [List.dropLast_cons_of_ne_nil complete] at hevents
      have hline := not_mem_trimReturn (hlines line List.mem_cons_self).1
      rw [afterLine, (h.feed hline hevents.1).1] at stops
      cases stops
  | @line event line lines out goesOn next ih =>
      rw [List.dropLast_cons_of_ne_nil next.ne_nil] at hevents ⊢
      have hline := not_mem_trimReturn (hlines line List.mem_cons_self).1
      obtain ⟨-, hmirrors, hfirst⟩ := h.feed hline hevents.1
      have hrest := ih hmirrors (fun l hl => hlines l (List.mem_cons_of_mem _ hl)) hevents.2
      rw [List.map_cons, dispatched, List.map_append, List.filter_append, ← hfirst, ← hrest,
        ← List.map_append]
      exact congrArg (List.map withoutFeeds) (List.filterMap_append ..)

/-- The watcher sees what a client would that knows LF and CRLF alone. -/
theorem passed_seen {max : ℤ} {chunks : List Bytes} (h : Within max chunks.flatten) :
    (passed (seen max chunks)).map withoutFeeds = shown .plain chunks.flatten := by
  have hevents := h.events
  rw [lines_plain] at hevents
  rw [shown, lines_plain]
  exact passed_calls (seen_calls max chunks) .nil
    (fun line hline => ⟨Bytes.not_mem_of_mem_splitOn hline, h.lines line hline⟩) hevents

/-! ## What the watcher misses -/

/-- Every CR is followed by an LF. -/
def NoLoneReturn : Bytes → Prop
  | [] => True
  | c :: b => (c = 0x0d → b.head? = some 0x0a) ∧ NoLoneReturn b

instance NoLoneReturn.decidable : ∀ b, Decidable (NoLoneReturn b)
  | [] => .isTrue trivial
  | _ :: b =>
    have := NoLoneReturn.decidable b
    inferInstanceAs (Decidable ((_ → _) ∧ _))

theorem lineFeeds_eq_of_noLoneReturn {b : Bytes} (h : NoLoneReturn b) (loneReturn : Bool) :
    lineFeeds loneReturn b = lineFeeds false b := by
  induction b with
  | nil => rfl
  | cons c b ih =>
      rw [lineFeeds, lineFeeds, ih h.2]
      by_cases hc : c = 0x0d
      · rw [if_pos hc, if_pos hc, if_pos (h.1 hc), if_pos (h.1 hc)]
      · rw [if_neg hc, if_neg hc]

/-- Without a CR on its own and without a byte order mark there is one reading. -/
theorem shown_whatwg_eq_plain {stream : Bytes} (hreturn : NoLoneReturn stream)
    (hmark : ¬ byteOrderMark <+: stream) : shown .whatwg stream = shown .plain stream := by
  have hlines : Framing.whatwg.lines stream = Framing.plain.lines stream := by
    simp [Framing.lines, Framing.whatwg, Framing.plain, hmark, lineFeeds_eq_of_noLoneReturn hreturn]
  rw [shown, hlines, shown]

end Sanad.Tooldefs
