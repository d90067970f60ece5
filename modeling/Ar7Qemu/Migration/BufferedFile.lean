import Ar7Qemu.Lib.Run
import Mathlib.Data.Int.Notation
import Mathlib.Data.List.Basic

/-! Rate-limited migration output. Bytes that the backend does not take at once wait in a
buffer, which is flushed before newer bytes go out. The calls of the backend are logged,
and the log says what the backend was handed and what it accepted. -/

namespace Ar7Qemu.Migration.Buffered

open Lib

abbrev Byte := UInt8

/-- The result of a call of the backend's `put_buffer`. -/
inductive PutResult where
  /-- a positive result; the backend takes `n + 1` bytes, or all when there are fewer -/
  | accept (n : ℕ)
  /-- `-EAGAIN` -/
  | again
  /-- zero or another error -/
  | error
  deriving DecidableEq

/-- `QEMUFileBuffered`, with everything submitted to it and the log of its backend. -/
structure QEMUFileBuffered where
  hasError : Bool
  freezeOutput : Bool
  bytesXfer : ℕ
  xferLimit : ℕ
  buffer : List Byte
  bufferCapacity : ℕ
  closed : Bool
  submitted : List Byte
  calls : List (List Byte × PutResult)

/-- A file just opened by `qemu_fopen_ops_buffered`. -/
def QEMUFileBuffered.open (bytesPerSec : ℕ) : QEMUFileBuffered :=
  ⟨false, false, 0, bytesPerSec / 10, [], 0, false, [], []⟩

section Model

-- the results of the backend, call by call
variable (backend : ℕ → PutResult)

/-- A call of the backend: its result, and the file with the call logged. -/
def putBackend (s : QEMUFileBuffered) (data : List Byte) : PutResult × QEMUFileBuffered :=
  let r := backend s.calls.length
  (r, { s with calls := s.calls ++ [(data, r)] })

def bufferedAppend (s : QEMUFileBuffered) (buf : List Byte) : QEMUFileBuffered :=
  let capacity := if s.bufferCapacity - s.buffer.length < buf.length then s.bufferCapacity + (buf.length + 1024)
    else s.bufferCapacity
  { s with bufferCapacity := capacity, buffer := s.buffer ++ buf }

/-- The loop of `buffered_flush` over the rest of the buffer. Every pass that goes on takes
a byte at least, so the length of the buffer is enough fuel. -/
def flushLoop : ℕ → List Byte → QEMUFileBuffered → List Byte × QEMUFileBuffered
  | 0, rest, s => (rest, s)
  | fuel + 1, rest, s =>
    if rest = [] then (rest, s)
    else
      match putBackend backend s rest with
      | (.again, s) => (rest, { s with freezeOutput := true })
      | (.error, s) => (rest, { s with hasError := true })
      | (.accept n, s) => flushLoop fuel (rest.drop (n + 1)) s

def bufferedFlush (s : QEMUFileBuffered) : QEMUFileBuffered :=
  if s.hasError then s
  else
    let (rest, s) := flushLoop backend s.buffer.length s.buffer s
    { s with buffer := rest }

/-- The loop of `buffered_put_buffer` over the rest of the new bytes; `none` after an error. -/
def putLoop : ℕ → List Byte → QEMUFileBuffered → Option (List Byte) × QEMUFileBuffered
  | 0, rest, s => (some rest, s)
  | fuel + 1, rest, s =>
    if s.freezeOutput ∨ rest = [] then (some rest, s)
    else if s.bytesXfer > s.xferLimit then (some rest, s)
    else
      match putBackend backend s rest with
      | (.again, s) => (some rest, { s with freezeOutput := true })
      | (.error, s) => (none, { s with hasError := true })
      | (.accept n, s) =>
        putLoop fuel (rest.drop (n + 1)) { s with bytesXfer := s.bytesXfer + min (n + 1) rest.length }

/-- The result is `-EINVAL` or the number of bytes. -/
def bufferedPutBuffer (s : QEMUFileBuffered) (buf : List Byte) : ℤ × QEMUFileBuffered :=
  let s := { s with submitted := s.submitted ++ buf }
  if s.hasError then (-22, s)
  else
    let s := bufferedFlush backend { s with freezeOutput := false }
    match putLoop backend buf.length buf s with
    | (some rest, s) => (buf.length, bufferedAppend s rest)
    | (none, s) => (-22, s)

/-- The loop of `buffered_close`, for a number of passes; the source has no bound. -/
def closeLoop : ℕ → QEMUFileBuffered → QEMUFileBuffered
  | 0, s => s
  | passes + 1, s => if ¬ s.hasError ∧ s.buffer ≠ [] then closeLoop passes (bufferedFlush backend s) else s

def bufferedClose (s : QEMUFileBuffered) (passes : ℕ) : QEMUFileBuffered :=
  { closeLoop backend passes s with closed := true }

def bufferedRateTick (s : QEMUFileBuffered) : QEMUFileBuffered :=
  if s.hasError then s
  else if s.freezeOutput then s
  else bufferedFlush backend { s with bytesXfer := 0 }

/-- What happens to a file until it is closed. A put-ready notification of the backend is
`put []`. -/
inductive BufferedEvent where
  | put (buf : List Byte)
  | rateTick
  | close (passes : ℕ)

def bufferedStep (s : QEMUFileBuffered) : BufferedEvent → QEMUFileBuffered
  | .put buf => if s.closed then s else (bufferedPutBuffer backend s buf).2
  | .rateTick => if s.closed then s else bufferedRateTick backend s
  | .close passes => if s.closed then s else bufferedClose backend s passes

end Model

/-! ### What the backend has seen -/

def acceptedIn (calls : List (List Byte × PutResult)) : List Byte :=
  calls.flatMap fun
    | (data, .accept n) => data.take (n + 1)
    | _ => []

/-- A call that fails is the last one. -/
def NothingAfterError (calls : List (List Byte × PutResult)) : Prop :=
  ∀ before data after, calls = before ++ (data, .error) :: after → after = []

/-- Accepted bytes are a prefix of what was submitted, the buffer holds the rest until an
error occurs, and nothing is handed to the backend after an error. -/
structure DeliversPrefix (s : QEMUFileBuffered) : Prop where
  accepted : acceptedIn s.calls <+: s.submitted
  complete : (∀ c ∈ s.calls, c.2 ≠ .error) → acceptedIn s.calls ++ s.buffer = s.submitted
  stops : NothingAfterError s.calls

/-- The flush of `len` bytes meets an error, when the backend answers from call `k` on. -/
def FlushFails (backend : ℕ → PutResult) : ℕ → ℕ → ℕ → Prop
  | 0, _, _ => False
  | fuel + 1, k, len =>
    if len = 0 then False
    else
      match backend k with
      | .again => False
      | .error => True
      | .accept n => FlushFails backend fuel (k + 1) (len - (n + 1))

/-- The steps that stop at an error: all but a `put` of new bytes, below the rate limit,
whose flush of the old ones fails. -/
def StopsAtError (backend : ℕ → PutResult) (s : QEMUFileBuffered) : BufferedEvent → Prop
  | .put buf => s.closed = false → s.hasError = false → buf ≠ [] → s.bytesXfer ≤ s.xferLimit →
      ¬ FlushFails backend s.buffer.length s.calls.length s.buffer.length
  | _ => True

/-! ### Logs -/

def NoError (calls : List (List Byte × PutResult)) : Prop := ∀ c ∈ calls, c.2 ≠ .error

theorem acceptedIn_append (l l' : List (List Byte × PutResult)) :
    acceptedIn (l ++ l') = acceptedIn l ++ acceptedIn l' := List.flatMap_append

theorem noError_append {l l' : List (List Byte × PutResult)} : NoError (l ++ l') ↔ NoError l ∧ NoError l' := by
  simp only [NoError, List.mem_append, or_imp, forall_and]

theorem NoError.nothingAfter {l : List (List Byte × PutResult)} (h : NoError l) : NothingAfterError l := by
  rintro before data after rfl
  exact absurd rfl (h (data, .error) (by simp))

theorem NothingAfterError.append {l l' : List (List Byte × PutResult)} (h : NoError l) (h' : NothingAfterError l') :
    NothingAfterError (l ++ l') := by
  intro before data after heq
  rcases List.append_eq_append_iff.1 heq with ⟨c, hb, hl'⟩ | ⟨c, hl, hc⟩
  · exact h' c data after hl'
  · cases c with
    | nil => exact h' [] data after (by simpa using hc.symm)
    | cons x c =>
      rw [List.cons_append, List.cons.injEq] at hc
      refine absurd rfl (h (data, .error) ?_)
      rw [hl, ← hc.1]
      simp

theorem nothingAfterError_singleton (c : List Byte × PutResult) : NothingAfterError [c] := by
  intro before data after heq
  cases before with
  | nil => simpa using (List.cons.inj heq).2.symm
  | cons x before => simp at heq

theorem not_nothingAfterError {l l' : List (List Byte × PutResult)} (h : ¬ NoError l) (hne : l' ≠ []) :
    ¬ NothingAfterError (l ++ l') := by
  intro hn
  simp only [NoError, not_forall, not_not] at h
  obtain ⟨⟨data, r⟩, hmem, hr⟩ := h
  have hr' : r = .error := hr
  subst hr'
  obtain ⟨before, after, rfl⟩ := List.append_of_mem hmem
  have := hn before data (after ++ l') (by simp)
  exact hne (List.append_eq_nil_iff.1 this).2

/-! ### The loops -/

section Loops

variable (backend : ℕ → PutResult)

/-- What the flush of `rest` has done when `rest'` is left. -/
structure Flushed (backend : ℕ → PutResult) (s : QEMUFileBuffered) (rest rest' : List Byte) (s' : QEMUFileBuffered)
    (new : List (List Byte × PutResult)) : Prop where
  calls : s'.calls = s.calls ++ new
  accepted : acceptedIn new ++ rest' = rest
  stops : NothingAfterError new
  fails : s'.hasError = true ↔ ¬ NoError new
  drained : s'.hasError = false → rest' = [] ∨ s'.freezeOutput = true
  thawed : s'.hasError = true → s'.freezeOutput = s.freezeOutput
  frame : s'.submitted = s.submitted ∧ s'.bytesXfer = s.bytesXfer ∧ s'.xferLimit = s.xferLimit ∧ s'.closed = s.closed

theorem flushLoop_flushed : ∀ (fuel : ℕ) (rest : List Byte) (s : QEMUFileBuffered), rest.length ≤ fuel →
    s.hasError = false → ∃ new, Flushed backend s rest (flushLoop backend fuel rest s).1
      (flushLoop backend fuel rest s).2 new ∧
      ((flushLoop backend fuel rest s).2.hasError = true ↔ FlushFails backend fuel s.calls.length rest.length)
  | 0, rest, s, hlen, herr => by
    have hrest : rest = [] := List.eq_nil_of_length_eq_zero (Nat.le_zero.1 hlen)
    subst hrest
    refine ⟨[], ⟨by simp [flushLoop], rfl, ?_, ?_, ?_, ?_, ?_⟩, ?_⟩
    all_goals simp [flushLoop, herr, NoError, NothingAfterError, FlushFails]
  | fuel + 1, rest, s, hlen, herr => by
    by_cases hrest : rest = []
    · subst hrest
      refine ⟨[], ⟨by simp [flushLoop], rfl, ?_, ?_, ?_, ?_, ?_⟩, ?_⟩
      all_goals simp [flushLoop, herr, NoError, NothingAfterError, FlushFails]
    · have hpos : rest.length ≠ 0 := fun h => hrest (List.eq_nil_of_length_eq_zero h)
      cases hr : backend s.calls.length with
      | again =>
        have hrun : flushLoop backend (fuel + 1) rest s =
            (rest, { s with calls := s.calls ++ [(rest, .again)], freezeOutput := true }) := by
          simp [flushLoop, hrest, putBackend, hr]
        have hnone : NoError [(rest, PutResult.again)] := by simp [NoError]
        refine ⟨[(rest, .again)], ?_, ?_⟩
        · rw [hrun]
          exact ⟨rfl, rfl, hnone.nothingAfter, by simp [herr, hnone], fun _ => .inr rfl,
            fun h => by simp [herr] at h, rfl, rfl, rfl, rfl⟩
        · rw [hrun]
          simp [herr, FlushFails, hr]
      | error =>
        have hrun : flushLoop backend (fuel + 1) rest s =
            (rest, { s with calls := s.calls ++ [(rest, .error)], hasError := true }) := by
          simp [flushLoop, hrest, putBackend, hr]
        refine ⟨[(rest, .error)], ?_, ?_⟩
        · rw [hrun]
          exact ⟨rfl, rfl, nothingAfterError_singleton _, by simp [NoError], by simp, fun _ => rfl, rfl, rfl, rfl, rfl⟩
        · rw [hrun]
          simp [FlushFails, hr, hpos]
      | accept n =>
        have hrun : flushLoop backend (fuel + 1) rest s = flushLoop backend fuel (rest.drop (n + 1))
            { s with calls := s.calls ++ [(rest, .accept n)] } := by
          simp [flushLoop, hrest, putBackend, hr]
        have hlen' : (rest.drop (n + 1)).length ≤ fuel := by
          rw [List.length_drop]
          omega
        obtain ⟨new, hnew, hfail⟩ := flushLoop_flushed fuel (rest.drop (n + 1))
          { s with calls := s.calls ++ [(rest, .accept n)] } hlen' herr
        have hone : NoError [(rest, PutResult.accept n)] := by simp [NoError]
        refine ⟨(rest, .accept n) :: new, ?_, ?_⟩
        · rw [hrun]
          refine ⟨?_, ?_, hnew.stops.append hone, ?_, hnew.drained, hnew.thawed, ?_⟩
          · rw [hnew.calls]
            simp
          · show rest.take (n + 1) ++ acceptedIn new ++ _ = rest
            rw [List.append_assoc, hnew.accepted, List.take_append_drop]
          · rw [hnew.fails, show (rest, PutResult.accept n) :: new = [(rest, PutResult.accept n)] ++ new from rfl,
              noError_append]
            exact (and_iff_right hone).not.symm
          · exact hnew.frame
        · rw [hrun, hfail, FlushFails, if_neg hpos, hr]
          simp

/-- What the direct output of `rest` has done. -/
structure Put (s : QEMUFileBuffered) (rest : List Byte) (left : Option (List Byte)) (s' : QEMUFileBuffered)
    (new : List (List Byte × PutResult)) : Prop where
  calls : s'.calls = s.calls ++ new
  accepted : ∃ r, acceptedIn new ++ r = rest
  stops : NothingAfterError new
  kept : ∀ rest', left = some rest' → NoError new ∧ s'.hasError = s.hasError ∧ acceptedIn new ++ rest' = rest
  failed : left = none → ¬ NoError new ∧ s'.hasError = true
  buffer : s'.buffer = s.buffer
  submitted : s'.submitted = s.submitted

theorem put_nil (s : QEMUFileBuffered) (rest : List Byte) : Put s rest (some rest) s [] where
  calls := by simp
  accepted := ⟨rest, rfl⟩
  stops := by simp [NothingAfterError]
  kept rest' h := by
    cases h
    exact ⟨by simp [NoError], rfl, rfl⟩
  failed h := by cases h
  buffer := rfl
  submitted := rfl

theorem putLoop_put : ∀ (fuel : ℕ) (rest : List Byte) (s : QEMUFileBuffered),
    ∃ new, Put s rest (putLoop backend fuel rest s).1 (putLoop backend fuel rest s).2 new
  | 0, rest, s => ⟨[], put_nil s rest⟩
  | fuel + 1, rest, s => by
    by_cases hstop : s.freezeOutput = true ∨ rest = []
    · refine ⟨[], ?_⟩
      rw [putLoop, if_pos hstop]
      exact put_nil s rest
    by_cases hlimit : s.bytesXfer > s.xferLimit
    · refine ⟨[], ?_⟩
      rw [putLoop, if_neg hstop, if_pos hlimit]
      exact put_nil s rest
    cases hr : backend s.calls.length with
    | again =>
      have hrun : putLoop backend (fuel + 1) rest s =
          (some rest, { s with calls := s.calls ++ [(rest, .again)], freezeOutput := true }) := by
        simp [putLoop, hstop, hlimit, putBackend, hr]
      have hnone : NoError [(rest, PutResult.again)] := by simp [NoError]
      refine ⟨[(rest, .again)], ?_⟩
      rw [hrun]
      refine ⟨rfl, ⟨rest, rfl⟩, hnone.nothingAfter, fun rest' h => ?_, nofun, rfl, rfl⟩
      cases h
      exact ⟨hnone, rfl, rfl⟩
    | error =>
      have hrun : putLoop backend (fuel + 1) rest s =
          (none, { s with calls := s.calls ++ [(rest, .error)], hasError := true }) := by
        simp [putLoop, hstop, hlimit, putBackend, hr]
      refine ⟨[(rest, .error)], ?_⟩
      rw [hrun]
      exact ⟨rfl, ⟨rest, rfl⟩, nothingAfterError_singleton _, nofun,
        fun _ => ⟨by simp [NoError], rfl⟩, rfl, rfl⟩
    | accept n =>
      have hrun : putLoop backend (fuel + 1) rest s = putLoop backend fuel (rest.drop (n + 1))
          { s with calls := s.calls ++ [(rest, .accept n)], bytesXfer := s.bytesXfer + min (n + 1) rest.length } := by
        simp [putLoop, hstop, hlimit, putBackend, hr]
      obtain ⟨new, hnew⟩ := putLoop_put fuel (rest.drop (n + 1))
        { s with calls := s.calls ++ [(rest, .accept n)], bytesXfer := s.bytesXfer + min (n + 1) rest.length }
      have hone : NoError [(rest, PutResult.accept n)] := by simp [NoError]
      have htake : ∀ r, acceptedIn new ++ r = rest.drop (n + 1) →
          acceptedIn ((rest, .accept n) :: new) ++ r = rest := by
        intro r hr
        show rest.take (n + 1) ++ acceptedIn new ++ r = rest
        rw [List.append_assoc, hr, List.take_append_drop]
      have hcons : NoError ((rest, .accept n) :: new) ↔ NoError new := by
        rw [show (rest, PutResult.accept n) :: new = [(rest, PutResult.accept n)] ++ new from rfl, noError_append]
        exact and_iff_right hone
      refine ⟨(rest, .accept n) :: new, ?_⟩
      rw [hrun]
      refine ⟨?_, ?_, hnew.stops.append hone, fun rest' h => ?_, fun h => ?_, hnew.buffer, hnew.submitted⟩
      · rw [hnew.calls]
        simp
      · obtain ⟨r, hr⟩ := hnew.accepted
        exact ⟨r, htake r hr⟩
      · obtain ⟨h₁, h₂, h₃⟩ := hnew.kept rest' h
        exact ⟨hcons.2 h₁, h₂, htake rest' h₃⟩
      · obtain ⟨h₁, h₂⟩ := hnew.failed h
        exact ⟨hcons.not.2 h₁, h₂⟩

/-- The direct output starts with a call of the backend, unless it is frozen, there is
nothing to put out or the limit is exceeded. -/
theorem putLoop_calls {fuel : ℕ} {rest : List Byte} {s : QEMUFileBuffered} (hfuel : rest.length ≤ fuel)
    (hfreeze : s.freezeOutput = false) (hrest : rest ≠ []) (hlimit : s.bytesXfer ≤ s.xferLimit)
    {new : List (List Byte × PutResult)}
    (h : Put s rest (putLoop backend fuel rest s).1 (putLoop backend fuel rest s).2 new) : new ≠ [] := by
  rintro rfl
  cases fuel with
  | zero => exact hrest (List.eq_nil_of_length_eq_zero (Nat.le_zero.1 hfuel))
  | succ fuel =>
    have hstop : ¬ (s.freezeOutput = true ∨ rest = []) := by simp [hfreeze, hrest]
    have hlimit' : ¬ s.bytesXfer > s.xferLimit := by omega
    have hcalls := h.calls
    rw [putLoop, if_neg hstop, if_neg hlimit'] at hcalls
    cases hr : backend s.calls.length with
    | again => simp [putBackend, hr] at hcalls
    | error => simp [putBackend, hr] at hcalls
    | accept n =>
      simp only [putBackend, hr] at hcalls
      obtain ⟨new, hnew⟩ := putLoop_put backend fuel (rest.drop (n + 1))
        { s with calls := s.calls ++ [(rest, .accept n)], bytesXfer := s.bytesXfer + min (n + 1) rest.length }
      rw [hnew.calls] at hcalls
      simp at hcalls

end Loops

/-! ### Every run -/

/-- The error flag says whether the log has an error. -/
structure BufferedInv (s : QEMUFileBuffered) : Prop where
  delivers : DeliversPrefix s
  error : s.hasError = true ↔ ¬ NoError s.calls

theorem BufferedInv.noError {s : QEMUFileBuffered} (h : BufferedInv s) (herr : s.hasError = false) :
    NoError s.calls := by
  by_contra hn
  rw [h.error.2 hn] at herr
  cases herr

section Steps

variable {backend : ℕ → PutResult} {s s' : QEMUFileBuffered}

theorem flushed_bufferedFlush (backend : ℕ → PutResult) {s : QEMUFileBuffered} (herr : s.hasError = false) : ∃ new,
    Flushed backend s s.buffer (bufferedFlush backend s).buffer (bufferedFlush backend s) new ∧
      ((bufferedFlush backend s).hasError = true ↔
        FlushFails backend s.buffer.length s.calls.length s.buffer.length) := by
  obtain ⟨new, hnew, hfail⟩ := flushLoop_flushed backend s.buffer.length s.buffer s (Nat.le_refl _) herr
  have hrun : bufferedFlush backend s = { (flushLoop backend s.buffer.length s.buffer s).2 with
      buffer := (flushLoop backend s.buffer.length s.buffer s).1 } := by
    rw [bufferedFlush, if_neg (by rw [herr]; decide)]
  refine ⟨new, ?_, ?_⟩
  · rw [hrun]
    exact ⟨hnew.calls, hnew.accepted, hnew.stops, hnew.fails, hnew.drained, hnew.thawed, hnew.frame⟩
  · rw [hrun]
    exact hfail

/-- A step that submits `buf` and appends `new` to the log of a file without error. -/
theorem BufferedInv.extend (h : BufferedInv s) (herr : s.hasError = false) (buf : List Byte)
    {new : List (List Byte × PutResult)} (hsub : s'.submitted = s.submitted ++ buf)
    (hcalls : s'.calls = s.calls ++ new) (hstops : NothingAfterError new) (herror : s'.hasError = true ↔ ¬ NoError new)
    (hacc : ∃ r, acceptedIn new ++ r = s.buffer ++ buf)
    (hcomp : NoError new → acceptedIn new ++ s'.buffer = s.buffer ++ buf) : BufferedInv s' := by
  have hnone := h.noError herr
  have hfull : acceptedIn s.calls ++ s.buffer = s.submitted := h.delivers.complete hnone
  refine ⟨⟨?_, fun hn => ?_, ?_⟩, ?_⟩
  · obtain ⟨r, hr⟩ := hacc
    refine ⟨r, ?_⟩
    rw [hcalls, hsub, acceptedIn_append, List.append_assoc, hr, ← List.append_assoc, hfull]
  · rw [hcalls] at hn
    have hnew := (noError_append.1 hn).2
    rw [hcalls, hsub, acceptedIn_append, List.append_assoc, hcomp hnew, ← List.append_assoc, hfull]
  · rw [hcalls]
    exact hstops.append hnone
  · rw [herror, hcalls, noError_append]
    exact (and_iff_right hnone).not.symm

theorem BufferedInv.flush (h : BufferedInv s) : BufferedInv (bufferedFlush backend s) := by
  cases herr : s.hasError with
  | true =>
    rw [bufferedFlush, if_pos herr]
    exact h
  | false =>
    obtain ⟨new, hnew, _⟩ := flushed_bufferedFlush backend herr
    refine h.extend herr [] ?_ hnew.calls hnew.stops hnew.fails ⟨(bufferedFlush backend s).buffer, ?_⟩ fun _ => ?_
    · rw [hnew.frame.1, List.append_nil]
    · rw [List.append_nil]
      exact hnew.accepted
    · rw [List.append_nil]
      exact hnew.accepted

theorem BufferedInv.closeLoop : ∀ (passes : ℕ) {s : QEMUFileBuffered}, BufferedInv s →
    BufferedInv (closeLoop backend passes s)
  | 0, _, h => h
  | passes + 1, s, h => by
    rw [Buffered.closeLoop]
    split_ifs
    · exact BufferedInv.closeLoop passes h.flush
    · exact h

theorem putLoop_frozen {fuel : ℕ} {rest : List Byte} (h : s.freezeOutput = true) :
    putLoop backend fuel rest s = (some rest, s) := by
  cases fuel with
  | zero => rfl
  | succ fuel => rw [putLoop, if_pos (.inl h)]

/-- The state after the flush of a `put`. -/
def flushedFor (backend : ℕ → PutResult) (s : QEMUFileBuffered) (buf : List Byte) : QEMUFileBuffered :=
  bufferedFlush backend { s with submitted := s.submitted ++ buf, freezeOutput := false }

theorem put_some (herr : s.hasError = false) {buf rest : List Byte} {t : QEMUFileBuffered}
    (hput : putLoop backend buf.length buf (flushedFor backend s buf) = (some rest, t)) :
    (bufferedPutBuffer backend s buf).2 = bufferedAppend t rest := by
  rw [bufferedPutBuffer, if_neg (by rw [herr]; decide)]
  show (match putLoop backend buf.length buf (flushedFor backend s buf) with
    | (some rest, s) => ((buf.length : ℤ), bufferedAppend s rest)
    | (none, s) => (-22, s)).2 = _
  rw [hput]

theorem put_none (herr : s.hasError = false) {buf : List Byte} {t : QEMUFileBuffered}
    (hput : putLoop backend buf.length buf (flushedFor backend s buf) = (none, t)) :
    (bufferedPutBuffer backend s buf).2 = t := by
  rw [bufferedPutBuffer, if_neg (by rw [herr]; decide)]
  show (match putLoop backend buf.length buf (flushedFor backend s buf) with
    | (some rest, s) => ((buf.length : ℤ), bufferedAppend s rest)
    | (none, s) => (-22, s)).2 = _
  rw [hput]

/-- After a flush that did not fail, the direct output takes up where the buffer ends. -/
theorem BufferedInv.put_ok (h : BufferedInv s) (herr : s.hasError = false) {buf : List Byte}
    (hok : ¬ FlushFails backend s.buffer.length s.calls.length s.buffer.length) :
    BufferedInv (bufferedPutBuffer backend s buf).2 := by
  obtain ⟨new₁, h₁, hfail⟩ := flushed_bufferedFlush backend
    (s := { s with submitted := s.submitted ++ buf, freezeOutput := false }) herr
  have hacc₁ : acceptedIn new₁ ++ (flushedFor backend s buf).buffer = s.buffer := h₁.accepted
  have herr₁ : (flushedFor backend s buf).hasError = false := by
    by_contra hn
    have htrue : (flushedFor backend s buf).hasError = true := by simpa using hn
    exact hok (hfail.1 htrue)
  have hnone₁ : NoError new₁ := by
    by_contra hn
    have htrue : (flushedFor backend s buf).hasError = true := h₁.fails.2 hn
    rw [herr₁] at htrue
    cases htrue
  have hcalls₁ : (flushedFor backend s buf).calls = s.calls ++ new₁ := h₁.calls
  have hsub₁ : (flushedFor backend s buf).submitted = s.submitted ++ buf := h₁.frame.1
  obtain ⟨new₂, h₂⟩ := putLoop_put backend buf.length buf (flushedFor backend s buf)
  -- either the buffer is empty or nothing goes out directly
  have hjoin : ∀ r, acceptedIn new₂ ++ r = buf →
      acceptedIn (new₁ ++ new₂) ++ ((flushedFor backend s buf).buffer ++ r) = s.buffer ++ buf := by
    intro r hr
    rcases h₁.drained herr₁ with hempty | hfrozen
    · have hempty' : (flushedFor backend s buf).buffer = [] := hempty
      rw [hempty', List.append_nil] at hacc₁
      rw [hempty', acceptedIn_append, List.nil_append, List.append_assoc, hr, hacc₁]
    · have hfrozen' : (flushedFor backend s buf).freezeOutput = true := hfrozen
      have hnil : new₂ = [] := by
        have hc := h₂.calls
        rw [putLoop_frozen hfrozen'] at hc
        exact List.self_eq_append_right.1 hc
      rw [hnil] at hr ⊢
      have hr' : r = buf := hr
      rw [hr', List.append_nil, ← List.append_assoc, hacc₁]
  have hstops : NothingAfterError (new₁ ++ new₂) := h₂.stops.append hnone₁
  have hnone : NoError (new₁ ++ new₂) ↔ NoError new₂ := noError_append.trans (and_iff_right hnone₁)
  have hcalls₂ := h₂.calls
  rw [hcalls₁, List.append_assoc] at hcalls₂
  obtain ⟨r, hr⟩ := h₂.accepted
  have hacc : ∃ r, acceptedIn (new₁ ++ new₂) ++ r = s.buffer ++ buf := ⟨_, hjoin r hr⟩
  cases hput : putLoop backend buf.length buf (flushedFor backend s buf) with
  | mk left t =>
    rw [hput] at h₂ hcalls₂
    cases left with
    | some rest =>
      obtain ⟨hn₂, herr₂, hrest⟩ := h₂.kept rest rfl
      rw [put_some herr hput]
      refine h.extend herr buf (h₂.submitted.trans hsub₁) hcalls₂ hstops ?_ hacc fun _ => ?_
      · show t.hasError = true ↔ _
        rw [herr₂, herr₁, hnone]
        simp [hn₂]
      · show _ ++ (t.buffer ++ rest) = _
        rw [h₂.buffer]
        exact hjoin rest hrest
    | none =>
      obtain ⟨hn₂, herr₂⟩ := h₂.failed rfl
      rw [put_none herr hput]
      refine h.extend herr buf (h₂.submitted.trans hsub₁) hcalls₂ hstops ?_ hacc fun hn => ?_
      · rw [hnone]
        exact iff_of_true herr₂ hn₂
      · exact absurd (hnone.1 hn) hn₂

/-- After a flush that failed, the direct output goes on unless there is nothing to put out
or the limit is exceeded. -/
theorem BufferedInv.put_failed (h : BufferedInv s) (herr : s.hasError = false) {buf : List Byte}
    (hfails : FlushFails backend s.buffer.length s.calls.length s.buffer.length) :
    (buf = [] ∨ s.xferLimit < s.bytesXfer → BufferedInv (bufferedPutBuffer backend s buf).2) ∧
      (DeliversPrefix (bufferedPutBuffer backend s buf).2 → buf = [] ∨ s.xferLimit < s.bytesXfer) := by
  obtain ⟨new₁, h₁, hfail⟩ := flushed_bufferedFlush backend
    (s := { s with submitted := s.submitted ++ buf, freezeOutput := false }) herr
  have herr₁ : (flushedFor backend s buf).hasError = true := hfail.2 hfails
  have hthaw : (flushedFor backend s buf).freezeOutput = false := h₁.thawed herr₁
  have hnone₁ : ¬ NoError new₁ := h₁.fails.1 herr₁
  have hcalls₁ : (flushedFor backend s buf).calls = s.calls ++ new₁ := h₁.calls
  have hxfer : (flushedFor backend s buf).bytesXfer = s.bytesXfer ∧
      (flushedFor backend s buf).xferLimit = s.xferLimit := ⟨h₁.frame.2.1, h₁.frame.2.2.1⟩
  refine ⟨fun hstop => ?_, fun hdel => ?_⟩
  · have hput : putLoop backend buf.length buf (flushedFor backend s buf) = (some buf, flushedFor backend s buf) := by
      cases hlen : buf.length with
      | zero => rfl
      | succ fuel =>
        have hne : buf ≠ [] := fun hn => by
          rw [hn] at hlen
          cases hlen
        have hlimit : (flushedFor backend s buf).bytesXfer > (flushedFor backend s buf).xferLimit := by
          rw [hxfer.1, hxfer.2]
          exact hstop.resolve_left hne
        rw [putLoop, if_neg (by simp [hthaw, hne]), if_pos hlimit]
    rw [put_some herr hput]
    refine h.extend herr buf h₁.frame.1 hcalls₁ h₁.stops ?_ ⟨(flushedFor backend s buf).buffer ++ buf, ?_⟩ fun hn => ?_
    · exact iff_of_true herr₁ hnone₁
    · rw [← List.append_assoc]
      exact congrArg (· ++ buf) h₁.accepted
    · exact absurd hn hnone₁
  · by_contra hstop
    rw [not_or, Nat.not_lt] at hstop
    obtain ⟨new₂, h₂⟩ := putLoop_put backend buf.length buf (flushedFor backend s buf)
    have hne := putLoop_calls backend (Nat.le_refl _) hthaw hstop.1 (by rw [hxfer.1, hxfer.2]; exact hstop.2) h₂
    have hcalls₂ := h₂.calls
    rw [hcalls₁] at hcalls₂
    have hlog : (bufferedPutBuffer backend s buf).2.calls = s.calls ++ new₁ ++ new₂ := by
      cases hput : putLoop backend buf.length buf (flushedFor backend s buf) with
      | mk left t =>
        rw [hput] at hcalls₂
        cases left with
        | some rest =>
          rw [put_some herr hput]
          exact hcalls₂
        | none =>
          rw [put_none herr hput]
          exact hcalls₂
    have hstops := hdel.stops
    rw [hlog] at hstops
    exact not_nothingAfterError (fun hn => hnone₁ (noError_append.1 hn).2) hne hstops

end Steps

theorem BufferedInv.step {backend : ℕ → PutResult} {s : QEMUFileBuffered} (h : BufferedInv s) {e : BufferedEvent}
    (hok : StopsAtError backend s e) : BufferedInv (bufferedStep backend s e) := by
  by_cases hclosed : s.closed = true
  · have hstay : bufferedStep backend s e = s := by cases e <;> exact if_pos hclosed
    rw [hstay]
    exact h
  cases e with
  | rateTick =>
    rw [bufferedStep, if_neg hclosed, bufferedRateTick]
    split_ifs
    · exact h
    · exact h
    · exact BufferedInv.flush ⟨⟨h.delivers.accepted, h.delivers.complete, h.delivers.stops⟩, h.error⟩
  | close passes =>
    rw [bufferedStep, if_neg hclosed, bufferedClose]
    have hloop : BufferedInv (Buffered.closeLoop backend passes s) := BufferedInv.closeLoop passes h
    exact ⟨⟨hloop.delivers.accepted, hloop.delivers.complete, hloop.delivers.stops⟩, hloop.error⟩
  | put buf =>
    rw [bufferedStep, if_neg hclosed]
    cases herr : s.hasError with
    | true =>
      rw [bufferedPutBuffer, if_pos herr]
      refine ⟨⟨h.delivers.accepted.trans (List.prefix_append _ _), fun hn => ?_, h.delivers.stops⟩, h.error⟩
      exact absurd hn (h.error.1 herr)
    | false =>
      by_cases hfails : FlushFails backend s.buffer.length s.calls.length s.buffer.length
      · refine (h.put_failed herr hfails).1 ?_
        by_contra hn
        rw [not_or, Nat.not_lt] at hn
        exact hok (by simpa using hclosed) herr hn.1 hn.2 hfails
      · exact h.put_ok herr hfails

theorem BufferedInv.stopsAtError {backend : ℕ → PutResult} {s : QEMUFileBuffered} (h : BufferedInv s)
    {e : BufferedEvent} (hdel : DeliversPrefix (bufferedStep backend s e)) : StopsAtError backend s e := by
  cases e with
  | rateTick => trivial
  | close passes => trivial
  | put buf =>
    intro hclosed herr hne hle hfails
    rw [bufferedStep, if_neg (by rw [hclosed]; decide)] at hdel
    rcases (h.put_failed herr hfails).2 hdel with hnil | hlimit
    · exact hne hnil
    · exact absurd hle (Nat.not_le.2 hlimit)

/-- The backend gets a prefix of what was submitted in every state of a run, and nothing
after an error, exactly when every step of the run stops at an error. -/
theorem buffered_delivers_iff (backend : ℕ → PutResult) (bytesPerSec : ℕ) (es : List BufferedEvent) :
    (∀ s ∈ states (bufferedStep backend) (QEMUFileBuffered.open bytesPerSec) es, DeliversPrefix s) ↔
      Meets (bufferedStep backend) (StopsAtError backend) (QEMUFileBuffered.open bytesPerSec) es := by
  refine states_iff_meets_of (P := BufferedInv) (fun s h => h.delivers) (fun s e h hok => h.step hok)
    (fun s e h hdel => h.stopsAtError hdel) es _ ⟨⟨?_, ?_, ?_⟩, ?_⟩
  all_goals simp [QEMUFileBuffered.open, acceptedIn, NothingAfterError, NoError]

/-- The backend is busy at first and then fails: a flush that fails does not keep the same
call from handing its own bytes to the backend. -/
theorem buffered_put_after_error :
    ¬ ∀ s ∈ states (bufferedStep fun k => if k = 0 then .again else if k = 1 then .error else .accept 0)
        (QEMUFileBuffered.open 100) [.put [1], .put [2]], DeliversPrefix s := by
  intro h
  have hstops := (h _ (foldl_mem_states _ _)).stops
  exact absurd (hstops [([1], .again)] [1] [([2], .accept 0)] (by decide)) (by decide)

end Ar7Qemu.Migration.Buffered
