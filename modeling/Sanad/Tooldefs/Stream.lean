import Sanad.Tooldefs.Inspect

/-! # Event streams

`tooldefs/sse.go`: the reader that hands an event stream on as it comes and puts its events together on
the side, and what the guard does with them. By then the bytes are on the wire, so a stream is never
refused.
-/

namespace Sanad.Tooldefs

open Gateway

/-! ## The watcher -/

/-- What the watcher calls back with: the data of a complete event, or that one became too long. -/
inductive Seen where
  | event (data : Bytes)
  | overflow
  deriving DecidableEq, Repr

/-- `sseWatcher`: the line and the event in progress. -/
structure Watcher where
  line : Bytes
  event : Bytes
  stopped : Bool
  deriving DecidableEq, Repr

def Watcher.new : Watcher := ⟨[], [], false⟩

/-- `overflow`: watching stops, and the buffers are given up. -/
def Watcher.overflow : Watcher × List Seen := (⟨[], [], true⟩, [.overflow])

/-- What a line adds to the event, without one leading space. None for fields other than `data` and
for comments. -/
def dataOf (line : Bytes) : Option Bytes :=
  if (Bytes.ascii "data:").isPrefixOf line then
    match line.drop 5 with
    | 0x20 :: rest => some rest
    | rest => some rest
  else none

/-- The event with one more line. The lines are joined by newlines. -/
def Watcher.join (w : Watcher) (data : Bytes) : Bytes :=
  (if w.event = [] then [] else w.event ++ [0x0a]) ++ data

/-- `feed`: one complete line. -/
def Watcher.feed (max : ℤ) (w : Watcher) (line : Bytes) : Watcher × List Seen :=
  if line = [] then
    if w.event = [] then (w, []) else ({ w with event := [] }, [.event w.event])
  else
    match dataOf line with
    | none => (w, [])
    | some data =>
      if (w.join data).length > max then Watcher.overflow
      else ({ w with event := w.join data }, [])

/-- The line without a carriage return at its end. -/
def trimReturn (line : Bytes) : Bytes := if line.getLast? = some 0x0d then line.dropLast else line

/-- A line in progress is longer than the limit. -/
def TooLong (max : ℤ) (line : Bytes) : Prop := line ≠ [] ∧ line.length > max

instance (max : ℤ) (line : Bytes) : Decidable (TooLong max line) :=
  inferInstanceAs (Decidable (_ ∧ _))

/-- `scan`. Byte by byte comes to the same as cutting at the line ends: the length of a line is looked
at only when the chunk ends in the middle of it. -/
def Watcher.scan (max : ℤ) : Watcher → Bytes → Watcher × List Seen
  | w, [] => if TooLong max w.line then Watcher.overflow else (w, [])
  | w, c :: b =>
    if c = 0x0a then
      let fed := w.feed max (trimReturn w.line)
      if fed.1.stopped then fed
      else
        let rest := Watcher.scan max { fed.1 with line := [] } b
        (rest.1, fed.2 ++ rest.2)
    else Watcher.scan max { w with line := w.line ++ [c] } b

/-- `Read`, as far as the watcher is concerned. -/
def Watcher.read (max : ℤ) (w : Watcher) (chunk : Bytes) : Watcher × List Seen :=
  if chunk ≠ [] ∧ w.stopped = false then w.scan max chunk else (w, [])

/-- The buffers are within the limit. -/
structure Watcher.Bounded (max : ℤ) (w : Watcher) : Prop where
  line : w.line.length ≤ max
  event : w.event.length ≤ max

section

variable {max : ℤ} {w : Watcher}

/-- What one line can do: nothing, dispatch the event in progress, add to it, or make it too long. -/
theorem Watcher.feed_cases (max : ℤ) (w : Watcher) (line : Bytes) :
    w.feed max line = (w, []) ∨
    (w.event ≠ [] ∧ w.feed max line = ({ w with event := [] }, [.event w.event])) ∨
    (∃ data, (w.join data).length ≤ max ∧
      w.feed max line = ({ w with event := w.join data }, [])) ∨
    w.feed max line = Watcher.overflow := by
  rw [feed]
  split_ifs with hline hevent
  · exact .inl rfl
  · exact .inr (.inl ⟨hevent, rfl⟩)
  · cases dataOf line with
    | none => exact .inl rfl
    | some data =>
        dsimp only
        split_ifs with hlong
        · exact .inr (.inr (.inr rfl))
        · exact .inr (.inr (.inl ⟨data, not_lt.mp hlong, rfl⟩))

theorem Watcher.feed_stopped {line : Bytes} (hw : w.stopped = false)
    (h : (w.feed max line).1.stopped = true) : w.feed max line = Watcher.overflow := by
  obtain heq | ⟨-, heq⟩ | ⟨data, -, heq⟩ | heq := w.feed_cases max line
  · rw [heq, hw] at h
    cases h
  · rw [heq, hw] at h
    cases h
  · rw [heq, hw] at h
    cases h
  · exact heq

theorem Watcher.length_event_feed {line : Bytes} (hmax : 0 ≤ max) (hevent : w.event.length ≤ max) :
    (w.feed max line).1.event.length ≤ max := by
  obtain heq | ⟨-, heq⟩ | ⟨data, hfits, heq⟩ | heq := w.feed_cases max line
  · rw [heq]
    exact hevent
  · rw [heq]
    exact hmax
  · rw [heq]
    exact hfits
  · rw [heq]
    exact hmax

/-- However a stream is cut into chunks, the watcher holds no more than the limit in each of its buffers
once it has read one. -/
theorem Watcher.Bounded.read (hw : w.Bounded max) (hmax : 0 ≤ max) (chunk : Bytes) :
    (w.read max chunk).1.Bounded max := by
  rw [Watcher.read]
  split_ifs with hread
  · obtain ⟨-, hstopped⟩ := hread
    have hevent := hw.event
    -- The line may grow past the limit inside the chunk, so only the event is carried along.
    clear hw
    induction chunk generalizing w with
    | nil =>
        rw [Watcher.scan]
        split_ifs with hlong
        · exact ⟨hmax, hmax⟩
        · refine ⟨?_, hevent⟩
          by_cases hempty : w.line = []
          · rw [hempty]
            exact hmax
          · exact not_lt.mp fun h => hlong ⟨hempty, h⟩
    | cons c b ih =>
        rw [Watcher.scan]
        dsimp only
        split_ifs with hnewline hfed
        · rw [Watcher.feed_stopped hstopped hfed]
          exact ⟨hmax, hmax⟩
        · exact ih (Bool.eq_false_iff.mpr hfed) (Watcher.length_event_feed hmax hevent)
        · exact ih hstopped hevent
  · exact hw

end

/-! ## The guard's callbacks -/

section

variable (hash : Bytes → Bytes) (cfg : GuardConfig) (now : ℤ) (req : Request) (w : Watch)

/-- `onEvent` and `onOverflow` of `inspectStream`. -/
def onSeen : Seen → GuardState → GuardState
  | .event data, s =>
    match toolsResult data with
    | none => s
    | some result =>
      match canonical result with
      | .error err => (unverifiable cfg now req w false (.streamNotDefinitions err) s).2
      -- the observation still quarantines the server, which stops the next request
      | .ok defs => (observe hash cfg now req w false defs s).2
  | .overflow, s => (unverifiable cfg now req w false .eventExceedsLimit s).2

end

end Sanad.Tooldefs
