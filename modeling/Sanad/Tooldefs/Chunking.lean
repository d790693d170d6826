import Sanad.Tooldefs.Stream

/-! # How a stream is cut into reads

The network decides where one `Read` ends and the next one begins. The calls of the watcher depend on it
through the lines that are longer than the limit alone: such a line stops the watcher if a read ends late
enough inside of it, and is taken as it is if no read does.
-/

namespace Sanad.Tooldefs

/-- A watcher that reads a stream in chunks. -/
def Watcher.readAll (max : ℤ) : Watcher → List Bytes → Watcher × List Seen
  | w, [] => (w, [])
  | w, chunk :: chunks =>
    let first := w.read max chunk
    let rest := Watcher.readAll max first.1 chunks
    (rest.1, first.2 ++ rest.2)

/-- The calls that the watcher makes for a stream that comes in chunks. -/
def seen (max : ℤ) (chunks : List Bytes) : List Seen := (Watcher.new.readAll max chunks).2

/-- What a complete line does to the event in progress. -/
def afterLine (max : ℤ) (event line : Bytes) : Watcher × List Seen :=
  Watcher.feed max ⟨[], event, false⟩ (trimReturn line)

/-! ## The possible calls -/

/-- The calls that are possible for a stream, given by its lines and what comes after the last line end.
A line that is too long stops the watcher or not, depending on where the reads end. -/
inductive Calls (max : ℤ) : Bytes → List Bytes → List Seen → Prop
  | rest {event line : Bytes} (fits : ¬ TooLong max line) : Calls max event [line] []
  | cut {event line : Bytes} {lines : List Bytes} (long : TooLong max line) :
    Calls max event (line :: lines) [.overflow]
  | stopped {event line : Bytes} {lines : List Bytes} (complete : lines ≠ [])
    (stops : (afterLine max event line).1.stopped = true) :
    Calls max event (line :: lines) [.overflow]
  | line {event line : Bytes} {lines : List Bytes} {out : List Seen}
    (goesOn : (afterLine max event line).1.stopped = false)
    (next : Calls max (afterLine max event line).1.event lines out) :
    Calls max event (line :: lines) ((afterLine max event line).2 ++ out)

/-- Whatever the cut, the next call for these lines is that an event is too long. -/
def Muted (max : ℤ) : Bytes → List Bytes → Prop
  | _, [] => False
  | _, [line] => TooLong max line
  | event, line :: next :: lines =>
    (afterLine max event line).1.stopped = true ∨
      (afterLine max event line).2 = [] ∧
        Muted max (afterLine max event line).1.event (next :: lines)

/-- A complete line that is too long makes its event too long as well, or is followed, before any event
is dispatched, by one that is or by a last line that is too long and not complete. -/
def Uniform (max : ℤ) : Bytes → List Bytes → Prop
  | _, [] => True
  | _, [_] => True
  | event, line :: next :: lines =>
    (afterLine max event line).1.stopped = true ∨
      (TooLong max line ∧ (afterLine max event line).2 = [] ∧
        Muted max (afterLine max event line).1.event (next :: lines)) ∨
      (¬ TooLong max line ∧ Uniform max (afterLine max event line).1.event (next :: lines))

instance Muted.decidable (max : ℤ) : ∀ event lines, Decidable (Muted max event lines)
  | _, [] => .isFalse id
  | _, [line] => inferInstanceAs (Decidable (TooLong max line))
  | event, line :: next :: lines =>
    have := Muted.decidable max (afterLine max event line).1.event (next :: lines)
    inferInstanceAs (Decidable (_ ∨ _ ∧ _))

instance Uniform.decidable (max : ℤ) : ∀ event lines, Decidable (Uniform max event lines)
  | _, [] => .isTrue trivial
  | _, [_] => .isTrue trivial
  | event, line :: next :: lines =>
    have := Uniform.decidable max (afterLine max event line).1.event (next :: lines)
    inferInstanceAs (Decidable (_ ∨ (_ ∧ _ ∧ _) ∨ (_ ∧ _)))

section

variable {max : ℤ} {event line next : Bytes} {lines : List Bytes} {out out' : List Seen}

/-- A line that does not stop the watcher makes it call for an event at most. -/
theorem afterLine_calls (h : (afterLine max event line).1.stopped = false) :
    (afterLine max event line).2 = [] ∨ ∃ data, (afterLine max event line).2 = [.event data] := by
  rw [afterLine] at h ⊢
  obtain heq | ⟨-, heq⟩ | ⟨data, -, heq⟩ | heq :=
    Watcher.feed_cases max ⟨[], event, false⟩ (trimReturn line)
  · exact .inl (by rw [heq])
  · exact .inr ⟨_, by rw [heq]⟩
  · exact .inl (by rw [heq])
  · rw [heq] at h
    cases h

theorem Calls.ne_nil (h : Calls max event lines out) : lines ≠ [] := by
  cases h <;> simp

theorem calls_singleton_iff :
    Calls max event [line] out ↔ out = if TooLong max line then [.overflow] else [] := by
  constructor
  · intro h
    cases h with
    | rest fits => rw [if_neg fits]
    | cut long => rw [if_pos long]
    | stopped complete => exact absurd rfl complete
    | line _ next => cases next
  · rintro rfl
    split
    · next long => exact .cut long
    · next fits => exact .rest fits

theorem calls_cons_iff :
    Calls max event (line :: next :: lines) out ↔
      (TooLong max line ∨ (afterLine max event line).1.stopped = true) ∧ out = [.overflow] ∨
      (afterLine max event line).1.stopped = false ∧
        ∃ rest, Calls max (afterLine max event line).1.event (next :: lines) rest ∧
          out = (afterLine max event line).2 ++ rest := by
  constructor
  · intro h
    cases h with
    | cut long => exact .inl ⟨.inl long, rfl⟩
    | stopped _ stops => exact .inl ⟨.inr stops, rfl⟩
    | line goesOn rest => exact .inr ⟨goesOn, _, rest, rfl⟩
  · rintro (⟨long | stops, rfl⟩ | ⟨goesOn, rest, hrest, rfl⟩)
    · exact .cut long
    · exact .stopped (by simp) stops
    · exact .line goesOn hrest

theorem exists_calls (hlines : lines ≠ []) : ∃ out, Calls max event lines out := by
  induction lines generalizing event with
  | nil => exact absurd rfl hlines
  | cons line lines ih =>
      cases lines with
      | nil => exact ⟨_, calls_singleton_iff.mpr rfl⟩
      | cons next lines =>
          cases hstop : (afterLine max event line).1.stopped with
          | true => exact ⟨_, .stopped (by simp) hstop⟩
          | false =>
              obtain ⟨out, hout⟩ := ih (by simp)
              exact ⟨_, .line hstop hout⟩

theorem Muted.eq_overflow (hmuted : Muted max event lines) (h : Calls max event lines out) :
    out = [.overflow] := by
  induction lines generalizing event out with
  | nil => cases h
  | cons line lines ih =>
      cases lines with
      | nil =>
          rw [Muted] at hmuted
          rw [calls_singleton_iff.mp h, if_pos hmuted]
      | cons next lines =>
          rcases calls_cons_iff.mp h with ⟨-, hout⟩ | ⟨goesOn, rest, hrest, rfl⟩
          · exact hout
          · rcases hmuted with stops | ⟨hquiet, hmuted⟩
            · rw [goesOn] at stops
              cases stops
            · rw [hquiet, ih hmuted hrest, List.nil_append]

theorem exists_calls_ne_overflow (hlines : lines ≠ []) (hmuted : ¬ Muted max event lines) :
    ∃ out, Calls max event lines out ∧ out ≠ [.overflow] := by
  induction lines generalizing event with
  | nil => exact absurd rfl hlines
  | cons line lines ih =>
      cases lines with
      | nil => exact ⟨[], .rest hmuted, by simp⟩
      | cons next lines =>
          rw [Muted, not_or, Bool.not_eq_true, not_and] at hmuted
          obtain ⟨goesOn, hmuted⟩ := hmuted
          rcases afterLine_calls goesOn with hquiet | ⟨data, hdata⟩
          · obtain ⟨out, hout, hne⟩ := ih (by simp) (hmuted hquiet)
            exact ⟨_, .line goesOn hout, by rwa [hquiet]⟩
          · obtain ⟨out, hout⟩ := exists_calls (List.cons_ne_nil next lines)
            exact ⟨_, .line goesOn hout, by simp [hdata]⟩

/-- The calls are the same for every cut exactly for uniform streams. -/
theorem uniform_iff_unique (hlines : lines ≠ []) :
    Uniform max event lines ↔
      ∀ out out', Calls max event lines out → Calls max event lines out' → out = out' := by
  induction lines generalizing event with
  | nil => exact absurd rfl hlines
  | cons line lines ih =>
      cases lines with
      | nil =>
          simp only [calls_singleton_iff, Uniform, true_iff]
          rintro out out' rfl rfl
          rfl
      | cons next lines =>
          cases hstop : (afterLine max event line).1.stopped with
          | true =>
              -- with or without a cut, the overflow is all that is seen
              simp only [Uniform, calls_cons_iff, hstop]
              simp
          | false =>
              by_cases hlong : TooLong max line
              · -- such a line can stop the watcher, so nothing else may happen next
                have hiff : Uniform max event (line :: next :: lines) ↔
                    Muted max event (line :: next :: lines) := by
                  simp [Uniform, Muted, hlong]
                rw [hiff]
                constructor
                · intro hmuted out out' hout hout'
                  rw [hmuted.eq_overflow hout, hmuted.eq_overflow hout']
                · intro hunique
                  by_contra hmuted
                  obtain ⟨out, hout, hne⟩ := exists_calls_ne_overflow (by simp) hmuted
                  exact hne (hunique _ _ hout (.cut hlong))
              · simp only [Uniform, calls_cons_iff, hstop, hlong, not_false_eq_true,
                  Bool.false_eq_true, false_or, false_and, true_and]
                rw [ih (by simp)]
                constructor
                · rintro hunique out out' ⟨rest, hrest, rfl⟩ ⟨rest', hrest', rfl⟩
                  rw [hunique rest rest' hrest hrest']
                · intro hunique rest rest' hrest hrest'
                  exact List.append_cancel_left
                    (hunique _ _ ⟨rest, hrest, rfl⟩ ⟨rest', hrest', rfl⟩)

end

/-! ## The watcher makes possible calls -/

section

variable {max : ℤ} {w : Watcher} {chunks : List Bytes}

/-- Feeding a watcher in the middle of a line does to its event what the line does. -/
theorem Watcher.feed_trimReturn (hw : w.stopped = false) (line : Bytes) :
    w.feed max (trimReturn line) =
      if (afterLine max w.event line).1.stopped = true then Watcher.overflow
      else ({ w with event := (afterLine max w.event line).1.event },
        (afterLine max w.event line).2) := by
  obtain ⟨l, event, stopped⟩ := w
  subst hw
  simp only [afterLine, feed, join]
  by_cases hline : trimReturn line = []
  · by_cases hevent : event = []
    · simp [hline, hevent]
    · simp [hline, hevent]
  · cases hdata : dataOf (trimReturn line) with
    | none => simp [hline]
    | some data =>
        simp only [if_neg hline]
        by_cases hlong : ((if event = [] then [] else event ++ [0x0a]) ++ data).length > max
        · simp only [if_pos hlong]
          rfl
        · simp only [if_neg hlong]
          rfl

theorem Watcher.readAll_stopped (hw : w.stopped = true) : w.readAll max chunks = (w, []) := by
  induction chunks with
  | nil => rfl
  | cons chunk chunks ih => simp [readAll, read, hw, ih]

/-- The first line of a stream starts with the part of it that has been read. -/
theorem splitOn_append_eq {line : Bytes} (hline : 0x0a ∉ line) (rest : Bytes) :
    ∃ front lines, (line ++ rest).splitOn 0x0a = (line ++ front) :: lines := by
  induction line with
  | nil =>
      obtain ⟨front, lines, h⟩ := List.exists_cons_of_ne_nil (List.splitOn_ne_nil 0x0a rest)
      exact ⟨front, lines, h⟩
  | cons c line ih =>
      obtain ⟨front, lines, h⟩ := ih (fun hmem => hline (List.mem_cons_of_mem _ hmem))
      have hc : c ≠ 0x0a := fun hc => hline (by simp [hc])
      refine ⟨front, lines, ?_⟩
      rw [List.cons_append, List.splitOn_cons_eq_if_modifyHead, if_neg (by simpa using hc), h]
      rfl

theorem TooLong.append {line : Bytes} (h : TooLong max line) (front : Bytes) :
    TooLong max (line ++ front) := by
  obtain ⟨hne, hlen⟩ := h
  refine ⟨by simp [hne], ?_⟩
  rw [List.length_append]
  omega

/-- The rest of a chunk, with the chunks after it. -/
theorem Watcher.scan_calls {rest : Bytes}
    (hrest : ∀ w : Watcher, w.stopped = false → 0x0a ∉ w.line → ¬ TooLong max w.line →
      Calls max w.event ((w.line ++ rest).splitOn 0x0a) (w.readAll max chunks).2)
    (hw : w.stopped = false) (hline : 0x0a ∉ w.line) (b : Bytes) :
    Calls max w.event ((w.line ++ (b ++ rest)).splitOn 0x0a)
      ((w.scan max b).2 ++ ((w.scan max b).1.readAll max chunks).2) := by
  induction b generalizing w with
  | nil =>
      rw [scan, List.nil_append]
      split
      · next hlong =>
          -- the chunk ends in a line that is too long already, whatever else belongs to it
          obtain ⟨front, lines, hsplit⟩ := splitOn_append_eq hline rest
          rw [hsplit, overflow, readAll_stopped rfl]
          exact .cut (hlong.append front)
      · next hfits => exact hrest w hw hline hfits
  | cons c b ih =>
      rw [scan]
      by_cases hc : c = 0x0a
      · subst hc
        rw [List.cons_append, List.splitOn_append_cons_self_of_not_mem hline, if_pos rfl]
        simp only [feed_trimReturn hw]
        cases hstop : (afterLine max w.event w.line).1.stopped with
        | true =>
            simp only [if_true, overflow]
            rw [readAll_stopped rfl]
            exact .stopped (List.splitOn_ne_nil _ _) hstop
        | false =>
            simp only [Bool.false_eq_true, if_false, hw]
            rw [List.append_assoc]
            exact .line hstop (ih (w := ⟨[], _, false⟩) rfl List.not_mem_nil)
      · rw [if_neg hc]
        have hsnoc : w.line ++ (c :: b ++ rest) = (w.line ++ [c]) ++ (b ++ rest) := by simp
        rw [hsnoc]
        exact ih (w := { w with line := w.line ++ [c] }) hw (by simpa [Ne.symm hc] using hline)

/-- However a stream is cut, the watcher makes calls that are possible for its lines. -/
theorem Watcher.readAll_calls (hw : w.stopped = false) (hline : 0x0a ∉ w.line)
    (hfits : ¬ TooLong max w.line) :
    Calls max w.event ((w.line ++ chunks.flatten).splitOn 0x0a) (w.readAll max chunks).2 := by
  induction chunks generalizing w with
  | nil =>
      rw [List.flatten_nil, List.append_nil, List.splitOn_eq_singleton hline]
      exact .rest hfits
  | cons chunk chunks ih =>
      rw [List.flatten_cons, readAll, read]
      by_cases hchunk : chunk = []
      · subst hchunk
        simpa using ih hw hline hfits
      · simp only [hchunk, ne_eq, not_false_eq_true, hw, and_self, if_true]
        exact scan_calls (fun w hw hline hfits => ih hw hline hfits) hw hline chunk

theorem seen_calls (max : ℤ) (chunks : List Bytes) :
    Calls max [] (chunks.flatten.splitOn 0x0a) (seen max chunks) :=
  Watcher.readAll_calls (w := .new) rfl List.not_mem_nil fun h => h.1 rfl

/-! ## All possible calls are made -/

/-- A chunk, or the beginning of one, without a line end goes to the line in progress. -/
theorem Watcher.scan_append {line : Bytes} (hline : 0x0a ∉ line) (b : Bytes) :
    w.scan max (line ++ b) = ({ w with line := w.line ++ line } : Watcher).scan max b := by
  induction line generalizing w with
  | nil => simp
  | cons c line ih =>
      have hc : c ≠ 0x0a := fun hc => hline (by simp [hc])
      rw [List.cons_append, scan, if_neg hc, ih (fun hmem => hline (List.mem_cons_of_mem _ hmem))]
      simp

/-- A chunk that ends in the middle of its first line. -/
theorem Watcher.scan_open {event line : Bytes} (hline : 0x0a ∉ line) :
    Watcher.scan max ⟨[], event, false⟩ line =
      if TooLong max line then Watcher.overflow else (⟨line, event, false⟩, []) := by
  have happ : Watcher.scan max ⟨[], event, false⟩ (line ++ []) = _ := scan_append hline []
  rwa [List.append_nil, scan] at happ

/-- A chunk that is one line with its end. -/
theorem Watcher.read_line {event line : Bytes} (hline : 0x0a ∉ line) :
    Watcher.read max ⟨[], event, false⟩ (line ++ [0x0a]) =
      if (afterLine max event line).1.stopped = true then Watcher.overflow
      else (⟨[], (afterLine max event line).1.event, false⟩, (afterLine max event line).2) := by
  rw [read, if_pos (by simp), scan_append hline, scan, if_pos rfl]
  simp only [feed_trimReturn, List.nil_append]
  cases hstop : (afterLine max event line).1.stopped with
  | true => rfl
  | false => simp [scan, TooLong]

/-- Every possible sequence of calls is made for some cut: a line that is to stop the watcher, though it
does not make an event too long, is cut off before its end. -/
theorem Calls.exists_chunks {event : Bytes} {lines : List Bytes} {out : List Seen}
    (h : Calls max event lines out) (hlines : ∀ line ∈ lines, 0x0a ∉ line) :
    ∃ chunks : List Bytes, chunks.flatten = [0x0a].intercalate lines ∧
      (Watcher.readAll max ⟨[], event, false⟩ chunks).2 = out := by
  induction h with
  | @rest event line fits =>
      refine ⟨[line], by simp, ?_⟩
      by_cases hempty : line = []
      · simp [Watcher.readAll, Watcher.read, hempty]
      · simp [Watcher.readAll, Watcher.read, hempty, Watcher.scan_open (hlines line (by simp)), fits]
  | @cut event line lines long =>
      obtain ⟨front, hfront⟩ : ∃ rest, [0x0a].intercalate (line :: lines) = line ++ rest := by
        cases lines with
        | nil => exact ⟨[], by simp⟩
        | cons next lines => exact ⟨_, by rw [List.intercalate_cons_cons, List.append_assoc]⟩
      -- the first chunk ends where the line is complete but its end is not seen yet
      refine ⟨[line, front], by simp [hfront], ?_⟩
      rw [Watcher.readAll, Watcher.read, if_pos ⟨long.1, rfl⟩,
        Watcher.scan_open (hlines line (by simp)), if_pos long]
      simp only [Watcher.overflow]
      rw [Watcher.readAll_stopped rfl]
      rfl
  | @stopped event line lines complete stops =>
      refine ⟨[line ++ [0x0a], [0x0a].intercalate lines], ?_, ?_⟩
      · rw [List.intercalate_cons_of_ne_nil complete]
        simp
      · rw [Watcher.readAll, Watcher.read_line (hlines line (by simp)), if_pos stops]
        simp only [Watcher.overflow]
        rw [Watcher.readAll_stopped rfl]
        rfl
  | @line event line lines out goesOn next ih =>
      obtain ⟨chunks, hflatten, hout⟩ := ih fun l hl => hlines l (List.mem_cons_of_mem _ hl)
      refine ⟨(line ++ [0x0a]) :: chunks, ?_, ?_⟩
      · rw [List.intercalate_cons_of_ne_nil next.ne_nil, List.flatten_cons, hflatten]
      · rw [Watcher.readAll, Watcher.read_line (hlines line (by simp)), if_neg (by simp [goesOn])]
        simp only [hout]

end

/-- Whether the calls depend on the cut, exactly. -/
theorem seen_independent_iff (max : ℤ) (stream : Bytes) :
    (∀ chunks chunks' : List Bytes, chunks.flatten = stream → chunks'.flatten = stream →
      seen max chunks = seen max chunks') ↔ Uniform max [] (stream.splitOn 0x0a) := by
  rw [uniform_iff_unique (List.splitOn_ne_nil _ _)]
  constructor
  · intro hindependent out out' hout hout'
    obtain ⟨chunks, hflatten, rfl⟩ := hout.exists_chunks fun _ => Bytes.not_mem_of_mem_splitOn
    obtain ⟨chunks', hflatten', rfl⟩ := hout'.exists_chunks fun _ => Bytes.not_mem_of_mem_splitOn
    rw [List.intercalate_splitOn] at hflatten hflatten'
    exact hindependent chunks chunks' hflatten hflatten'
  · rintro hunique chunks chunks' rfl hflatten
    have hcalls := seen_calls max chunks'
    rw [hflatten] at hcalls
    exact hunique _ _ (seen_calls max chunks) hcalls

/-- Lines within the limit: the comment and the event come out the same for every cut. -/
theorem seen_independent_within_limit :
    let stream := Bytes.ascii ": keep-alive\ndata: \x7b\x7d\n\n"
    Uniform 16 [] (stream.splitOn 0x0a) ∧
      ∀ chunks chunks' : List Bytes, chunks.flatten = stream → chunks'.flatten = stream →
        seen 16 chunks = seen 16 chunks' :=
  ⟨by decide, (seen_independent_iff 16 _).mpr (by decide)⟩

/-- A comment that is longer than the limit, before an event that is not. Read at once, the event is
seen; if a read ends in the comment, the server is held instead and the event is not seen. -/
theorem seen_depends_on_cut :
    let comment := Bytes.ascii ": keep-alive"
    let event := Bytes.ascii "\ndata: \x7b\x7d\n\n"
    [comment ++ event].flatten = [comment, event].flatten ∧
      seen 8 [comment ++ event] = [.event (Bytes.ascii "\x7b\x7d")] ∧
      seen 8 [comment, event] = [.overflow] := by
  decide

end Sanad.Tooldefs
