import Glb.Proc

namespace Glb.Proofs.Proc

/-- What becomes of one stream before the child is spawned. -/
inductive StreamFate where
  | idle
  | refused
  | lost
  | doubled
  | piped
  deriving DecidableEq

variable {c : ProcCalls} {p : PipeCalls} {read : Bool} {a b d : StreamArg} {f g h : StreamFate} {err : Int} {s : ProcStart}
  {x y z : StdStream}

section spec

/-- Each descriptor is closed as often as it was opened, and no stream is left. -/
def Shut (x : StdStream) : Prop :=
  (∀ e, x.closed.get e = x.opened.get e) ∧ (x.file = none ∨ x.file = some none)

/-- Of a stream that is requested the parent's end is open, and nothing else is. -/
def ParentEndOpen (read : Bool) (x : StdStream) : Prop :=
  ∀ e, x.closed.get e < x.opened.get e ↔ x.file ≠ none ∧ e = parentEnd read

/-- All or nothing, of a start that has returned: the child with its streams and the
parent's ends of their pipes, or no stream and every descriptor closed as often as opened. -/
structure Outcome (err : Int) (s : ProcStart) : Prop where
  zero : err = 0 ↔ s.spawned = true ∧
    s.stdIn.file ≠ some none ∧ s.stdOut.file ≠ some none ∧ s.stdErr.file ≠ some none
  kept : err = 0 → ParentEndOpen false s.stdIn ∧ ParentEndOpen true s.stdOut ∧ ParentEndOpen true s.stdErr
  shut : err ≠ 0 → Shut s.stdIn ∧ Shut s.stdOut ∧ Shut s.stdErr

def AllOrNothing (r : Except ProcFault (Int × ProcStart)) : Prop := ∃ err s, r = .ok (err, s) ∧ Outcome err s

def fate (p : PipeCalls) (a : StreamArg) : StreamFate :=
  if a = .null then .idle
  else if p.isOpen = true ∧ p.addclose ≠ 0 ∨ p.pipe.isSome then .refused
  else if p.fdopen = false then .lost
  else if p.adddup2 ≠ 0 then .doubled
  else .piped

/-- Where a stream is requested the caller has none of its own. -/
def Blank (stdIn stdOut stdErr : StreamArg) : Prop := stdIn ≠ .held ∧ stdOut ≠ .held ∧ stdErr ≠ .held

/-- From the pipes on. The one of `std_in` may be refused while nothing is open yet. The
one of `std_out` may not, and none may fail in `adddup2`. Behind them a start can fail only
if all three streams are requested, and succeed only if each that is has been opened. -/
def PipesSound (c : ProcCalls) (stdIn stdOut stdErr : StreamArg) : Prop :=
  match fate c.stdIn stdIn, fate c.stdOut stdOut, fate c.stdErr stdErr with
  | .refused, _, _ => Blank stdIn stdOut stdErr
  | .doubled, _, _ => False
  | _, .refused, _ => False
  | _, .doubled, _ => False
  | f, g, .refused => f ≠ .idle ∧ g ≠ .idle ∧ stdErr ≠ .held
  | _, _, .doubled => False
  | f, g, h =>
    if c.spawn ≠ 0 then f ≠ .idle ∧ g ≠ .idle ∧ h ≠ .idle else f ≠ .lost ∧ g ≠ .lost ∧ h ≠ .lost

def StreamsSound (c : ProcCalls) (stdIn stdOut stdErr : StreamArg) : Prop :=
  if c.attrInit ≠ 0 ∨ c.setflags ≠ 0 ∨ c.factInit ≠ 0 then Blank stdIn stdOut stdErr
  else PipesSound c stdIn stdOut stdErr

end spec

section streams

def StreamFate.fails : StreamFate → Bool
  | .refused => true
  | .doubled => true
  | _ => false

/-- A pipe of which both ends are closed again, without a stream. -/
def lostPipe : StdStream := ⟨some none, some ⟨false, false⟩, ⟨1, 1⟩, ⟨1, 1⟩⟩

/-- An open pipe with a stream over the parent's end. -/
def openPipe (read : Bool) : StdStream :=
  ⟨some (some (.over (parentEnd read))), some ⟨true, true⟩, ⟨1, 1⟩, ⟨0, 0⟩⟩

/-- A stream as its fate leaves it. -/
def StreamFate.left (read : Bool) (a : StreamArg) : StreamFate → StdStream
  | .idle => (StdStream.entry a).declare
  | .refused => (StdStream.entry a).declare
  | .lost => lostPipe
  | .doubled => lostPipe.close (parentEnd read)
  | .piped => openPipe read

theorem fate_idle : fate p a = .idle ↔ a = .null := by
  unfold fate
  split
  case isTrue h => exact iff_of_true rfl h
  case isFalse h =>
    refine iff_of_false ?_ h
    split
    · nofun
    · split
      · nofun
      · split <;> nofun

theorem fails_nonzero (hzero : err = 0 ↔ f.fails = false) (hfails : f.fails = true) : err ≠ 0 := by
  intro herr
  rw [hzero.mp herr] at hfails
  cases hfails

/-- Once there is a pipe the fate depends on the stream and on `adddup2`. -/
theorem pipe_fds_opened (haddclose : (if p.isOpen then p.addclose else 0) = 0) (hpipe : p.pipe = none)
    (hreq : a ≠ .null) :
    ∃ err, procPipeFds p read (StdStream.entry a).declare =
        .ok (err, (if p.fdopen = false then StreamFate.lost else if p.adddup2 ≠ 0 then .doubled else .piped).left read a) ∧
      (err = 0 ↔
        (if p.fdopen = false then StreamFate.lost else if p.adddup2 ≠ 0 then .doubled else .piped).fails = false) := by
  unfold procPipeFds
  simp only [haddclose, hpipe]
  cases hopen : p.fdopen with
  | false =>
    refine ⟨0, ?_, by simp [StreamFate.fails]⟩
    cases a with
    | null => exact absurd rfl hreq
    | empty => rfl
    | held => rfl
  | true =>
    by_cases hdup : p.adddup2 = 0
    · refine ⟨0, ?_, by simp [StreamFate.fails, hdup]⟩
      cases a with
      | null => exact absurd rfl hreq
      | empty => simp only [hdup]; rfl
      | held => simp only [hdup]; rfl
    · refine ⟨p.adddup2, ?_, by simp [StreamFate.fails, hdup]⟩
      cases a with
      | null => exact absurd rfl hreq
      | empty => simp only [ne_eq, hdup, not_false_eq_true, if_true]; cases read <;> rfl
      | held => simp only [ne_eq, hdup, not_false_eq_true, if_true]; cases read <;> rfl

theorem stream_fate (p : PipeCalls) (read : Bool) (a : StreamArg) :
    ∃ err, procStream p read (StdStream.entry a).declare = .ok (err, (fate p a).left read a) ∧
      (err = 0 ↔ (fate p a).fails = false) := by
  by_cases hnull : a = .null
  · subst hnull
    exact ⟨0, rfl, iff_of_true rfl rfl⟩
  · have hreq : (StdStream.entry a).declare.file ≠ none := by
      cases a with
      | null => exact absurd rfl hnull
      | empty => nofun
      | held => nofun
    unfold procStream fate
    rw [if_neg hreq, if_neg hnull]
    by_cases haddclose : (if p.isOpen then p.addclose else 0) = 0
    · cases hpipe : p.pipe with
      | some errno =>
        refine ⟨errno.val, ?_, ?_⟩
        · unfold procPipeFds
          simp only [haddclose, hpipe, Option.isSome_some, or_true, if_true]
          rfl
        · simp [StreamFate.fails, errno.nonzero]
      | none =>
        have hgo : ¬ (p.isOpen = true ∧ p.addclose ≠ 0 ∨ (none : Option Errno).isSome = true) := by
          rintro (⟨hopen, hne⟩ | h)
          · rw [if_pos hopen] at haddclose
            exact hne haddclose
          · cases h
        rw [if_neg hgo]
        exact pipe_fds_opened haddclose hpipe hnull
    · have hrefused : p.isOpen = true ∧ p.addclose ≠ 0 := by
        by_cases hopen : p.isOpen = true
        · rw [if_pos hopen] at haddclose
          exact ⟨hopen, haddclose⟩
        · rw [if_neg hopen] at haddclose
          exact absurd rfl haddclose
      rw [if_pos (Or.inl hrefused)]
      refine ⟨p.addclose, ?_, iff_of_false hrefused.2 nofun⟩
      unfold procPipeFds
      simp only [hrefused.1, hrefused.2, if_true, ne_eq, not_false_eq_true]
      rfl

end streams

section cleanup

theorem entry_shut (a : StreamArg) : Shut (StdStream.entry a) ↔ a ≠ .held := by
  cases a <;> simp [Shut, StdStream.entry, StreamArg.file]

theorem declared_shut (a : StreamArg) : Shut (StdStream.entry a).declare ↔ a ≠ .held := entry_shut a

theorem doubled_not_shut (read : Bool) : ¬ Shut (lostPipe.close (parentEnd read)) := by
  intro h
  have hclosed := h.1 (parentEnd read)
  revert hclosed
  cases read <;> decide

theorem shut_of_counts (hcounts : x.closed = x.opened) (hfile : x.file = some none) : Shut x := by
  refine ⟨fun e => ?_, .inr hfile⟩
  rw [hcounts]

/-- On the way out the stream is released, and then the child's end closed. -/
theorem release_shut (read : Bool) (a : StreamArg) (hf : f = .lost ∨ f = .piped) :
    ∃ x y, (f.left read a).release (parentEnd read) = .ok x ∧ x.closeEnd (childEnd read) = .ok y ∧ Shut y := by
  rcases hf with rfl | rfl
  · have hrelease : lostPipe.release (parentEnd read) = .ok lostPipe := by cases read <;> rfl
    have hclose : lostPipe.closeEnd (childEnd read) = .ok lostPipe := by cases read <;> rfl
    exact ⟨lostPipe, lostPipe, hrelease, hclose, shut_of_counts rfl rfl⟩
  · have hclose : ∃ x y, (openPipe read).release (parentEnd read) = .ok x ∧ x.closeEnd (childEnd read) = .ok y ∧
        y.closed = y.opened ∧ y.file = some none := by
      cases read
      · exact ⟨_, _, rfl, rfl, rfl, rfl⟩
      · exact ⟨_, _, rfl, rfl, rfl, rfl⟩
    obtain ⟨x, y, hx, hy, hcounts, hfile⟩ := hclose
    exact ⟨x, y, hx, hy, shut_of_counts hcounts hfile⟩

/-- Where the child runs, its end is closed and the parent's is kept. -/
theorem close_end_left (read : Bool) (a : StreamArg) (hf : f = .idle ∧ a = .null ∨ f = .lost ∨ f = .piped) :
    ∃ x, (f.left read a).closeEnd (childEnd read) = .ok x ∧ (x.file = some none ↔ f = .lost) ∧
      (f ≠ .lost → ParentEndOpen read x) := by
  rcases hf with ⟨rfl, rfl⟩ | rfl | rfl
  · have hclose : (StreamFate.idle.left read .null).closeEnd (childEnd read) = .ok (StdStream.entry .null).declare := by
      cases read <;> rfl
    refine ⟨_, hclose, by decide, fun _ e => ?_⟩
    cases read <;> cases e <;> decide
  · have hclose : lostPipe.closeEnd (childEnd read) = .ok lostPipe := by cases read <;> rfl
    exact ⟨lostPipe, hclose, by decide, fun h => absurd rfl h⟩
  · have hclose : (openPipe read).closeEnd (childEnd read) = .ok ((openPipe read).close (childEnd read)) := by
      cases read <;> rfl
    refine ⟨_, hclose, by cases read <;> decide, fun _ e => ?_⟩
    cases read <;> cases e <;> decide

/-- From `cleanup_stdin` on `stderr_pipe` is read, whether it is set or not. -/
theorem cleanup_stdin_unset (h : s.stdErr.pipeFds = none) : ∃ fault, cleanupStdin s = .error fault := by
  unfold cleanupStdin closeChildEnds
  have herr : s.stdErr.closeEnd .write = .error .unset := by
    unfold StdStream.closeEnd
    rw [h]
  cases hin : s.stdIn.release .write with
  | error fault => exact ⟨fault, rfl⟩
  | ok x =>
    cases hread : x.closeEnd .read with
    | error fault => exact ⟨fault, by simp only [bind, Except.bind, hread]⟩
    | ok y =>
      cases hwrite : s.stdOut.closeEnd .write with
      | error fault => exact ⟨fault, by simp only [bind, Except.bind, hread, hwrite]⟩
      | ok z => exact ⟨.unset, by simp only [bind, Except.bind, hread, hwrite, herr]⟩

theorem release_null (e : PipeEnd) (hx : x.file = none) : x.release e = .error .nullStream := by
  unfold StdStream.release
  rw [hx]

/-- From `cleanup_stdout` on both `std_out` and `std_in` are gone through. -/
theorem cleanup_stdout_null (hnull : s.stdOut.file = none ∨ s.stdIn.file = none) :
    ∃ fault, cleanupStdout s = .error fault := by
  unfold cleanupStdout cleanupStdin
  cases hout : s.stdOut.release .read with
  | error fault => exact ⟨fault, rfl⟩
  | ok y =>
    rcases hnull with hnull | hnull
    · rw [release_null _ hnull] at hout
      cases hout
    · refine ⟨.nullStream, ?_⟩
      simp only [bind, Except.bind, release_null _ hnull]

theorem cleanup_stdout_shut (hin : s.stdIn = f.left false a) (hf : f = .lost ∨ f = .piped)
    (hout : s.stdOut = g.left true b) (hg : g = .lost ∨ g = .piped) (herr : s.stdErr.closeEnd .write = .ok z) :
    ∃ x y, cleanupStdout s = .ok { s with stdIn := x, stdOut := y, stdErr := z } ∧ Shut x ∧ Shut y := by
  obtain ⟨x, x', hx, hx', hxshut⟩ := release_shut false a hf
  obtain ⟨y, y', hy, hy', hyshut⟩ := release_shut true b hg
  rw [← hin] at hx
  rw [← hout] at hy
  refine ⟨x', y', ?_, hxshut, hyshut⟩
  unfold cleanupStdout cleanupStdin closeChildEnds
  change s.stdIn.release .write = _ at hx
  change s.stdOut.release .read = _ at hy
  change x.closeEnd .read = _ at hx'
  change y.closeEnd .write = _ at hy'
  simp only [bind, Except.bind, hy, hx, hx', hy', herr]
  rfl

end cleanup

section start

theorem fault_not_all (fault : ProcFault) : ¬ AllOrNothing (.error fault) := by
  rintro ⟨err, s, hr, _⟩
  cases hr

theorem all_ok_iff : AllOrNothing (.ok (err, s)) ↔ Outcome err s := by
  constructor
  · rintro ⟨err', s', hr, hout⟩
    cases hr
    exact hout
  · intro hout
    exact ⟨err, s, rfl, hout⟩

/-- An error without a child. -/
theorem all_failed_iff (herr : err ≠ 0) (hs : s.spawned = false) :
    AllOrNothing (.ok (err, s)) ↔ Shut s.stdIn ∧ Shut s.stdOut ∧ Shut s.stdErr := by
  rw [all_ok_iff]
  constructor
  · intro hout
    exact hout.shut herr
  · intro hshut
    refine ⟨iff_of_false herr ?_, fun hzero => absurd hzero herr, fun _ => hshut⟩
    rw [hs]
    rintro ⟨hspawned, _⟩
    cases hspawned

/-- A stream that a pipe has not failed for. -/
def GoesOn (f : StreamFate) (a : StreamArg) : Prop := f = .idle ∧ a = .null ∨ f = .lost ∨ f = .piped

theorem goes_on (hfails : (fate p a).fails = false) : GoesOn (fate p a) a := by
  cases hf : fate p a with
  | idle => exact .inl ⟨rfl, fate_idle.mp hf⟩
  | refused => rw [hf] at hfails; cases hfails
  | lost => exact .inr (.inl rfl)
  | doubled => rw [hf] at hfails; cases hfails
  | piped => exact .inr (.inr rfl)

theorem GoesOn.held (hgo : GoesOn f a) (hidle : f ≠ .idle) : f = .lost ∨ f = .piped :=
  hgo.resolve_left fun h => hidle h.1

theorem GoesOn.null (hgo : GoesOn f a) (hidle : f = .idle) : (f.left read a).file = none := by
  rcases hgo with ⟨rfl, rfl⟩ | rfl | rfl
  · rfl
  · cases hidle
  · cases hidle

/-- An error behind the pipes of `std_in` and `std_out`. -/
theorem cleanup_stdout_iff (herr : err ≠ 0) (hs : s.spawned = false)
    (hin : s.stdIn = f.left false a) (hf : GoesOn f a) (hout : s.stdOut = g.left true b) (hg : GoesOn g b)
    (hz : s.stdErr.closeEnd .write = .ok z) :
    AllOrNothing ((cleanupStdout s).bind fun s => .ok (err, s)) ↔ f ≠ .idle ∧ g ≠ .idle ∧ Shut z := by
  by_cases hidle : f ≠ .idle ∧ g ≠ .idle
  · obtain ⟨x, y, hrun, hx, hy⟩ := cleanup_stdout_shut hin (hf.held hidle.1) hout (hg.held hidle.2) hz
    rw [hrun]
    refine (all_failed_iff (s := { s with stdIn := x, stdOut := y, stdErr := z }) herr hs).trans ?_
    exact ⟨fun hshut => ⟨hidle.1, hidle.2, hshut.2.2⟩, fun hall => ⟨hx, hy, hall.2.2⟩⟩
  · have hnull : s.stdOut.file = none ∨ s.stdIn.file = none := by
      rw [hin, hout]
      by_cases hfidle : f = .idle
      · exact .inr (hf.null hfidle)
      · exact .inl (hg.null (not_not.mp fun hgidle => hidle ⟨hfidle, hgidle⟩))
    obtain ⟨fault, hrun⟩ := cleanup_stdout_null hnull
    rw [hrun]
    exact iff_of_false (fault_not_all fault) fun h => hidle ⟨h.1, h.2.1⟩

/-- The spawn, after pipes that have not failed. -/
theorem spawn_iff (c : ProcCalls) (hs : s.spawned = false) (hin : s.stdIn = f.left false a) (hf : GoesOn f a)
    (hout : s.stdOut = g.left true b) (hg : GoesOn g b) (herr : s.stdErr = h.left true d) (hh : GoesOn h d) :
    AllOrNothing (procSpawn c s) ↔
      if c.spawn ≠ 0 then f ≠ .idle ∧ g ≠ .idle ∧ h ≠ .idle else f ≠ .lost ∧ g ≠ .lost ∧ h ≠ .lost := by
  unfold procSpawn
  split
  case isTrue hspawn =>
    by_cases hidle : h = .idle
    · have hnull : s.stdErr.file = none := by
        rw [herr]
        exact hh.null hidle
      rw [release_null _ hnull]
      exact iff_of_false (fault_not_all _) fun hall => hall.2.2 hidle
    · obtain ⟨z, z', hz, hz', hzshut⟩ := release_shut true d (hh.held hidle)
      rw [← herr] at hz
      change s.stdErr.release .read = _ at hz
      rw [hz]
      refine (cleanup_stdout_iff (s := { s with pid := 0, stdErr := z }) hspawn hs hin hf hout hg hz').trans ?_
      exact ⟨fun hall => ⟨hall.1, hall.2.1, hidle⟩, fun hall => ⟨hall.1, hall.2.1, hzshut⟩⟩
  case isFalse hspawn =>
    obtain ⟨x, hx, hxlost, hxkept⟩ := close_end_left false a hf
    obtain ⟨y, hy, hylost, hykept⟩ := close_end_left true b hg
    obtain ⟨z, hz, hzlost, hzkept⟩ := close_end_left true d hh
    rw [← hin] at hx
    rw [← hout] at hy
    rw [← herr] at hz
    change s.stdIn.closeEnd .read = _ at hx
    change s.stdOut.closeEnd .write = _ at hy
    change s.stdErr.closeEnd .write = _ at hz
    unfold closeChildEnds
    simp only [bind, Except.bind, hx, hy, hz]
    refine all_ok_iff.trans ⟨fun hall => ?_, fun hall => ?_⟩
    · obtain ⟨_, hin, hout, herr⟩ := hall.zero.mp rfl
      exact ⟨fun hl => hin (hxlost.mpr hl), fun hl => hout (hylost.mpr hl), fun hl => herr (hzlost.mpr hl)⟩
    · refine ⟨iff_of_true rfl ⟨rfl, ?_, ?_, ?_⟩, fun _ => ?_, fun hne => absurd rfl hne⟩
      · exact fun hnone => hall.1 (hxlost.mp hnone)
      · exact fun hnone => hall.2.1 (hylost.mp hnone)
      · exact fun hnone => hall.2.2 (hzlost.mp hnone)
      · exact ⟨hxkept hall.1, hykept hall.2.1, hzkept hall.2.2⟩

theorem entry_failed_iff (herr : err ≠ 0) (stdIn stdOut stdErr : StreamArg) :
    AllOrNothing (.ok (err, ⟨0, false, .entry stdIn, .entry stdOut, .entry stdErr⟩)) ↔
      Blank stdIn stdOut stdErr := by
  rw [all_failed_iff herr rfl, entry_shut, entry_shut, entry_shut]
  rfl

/-- `std_err`, after pipes that have not failed. -/
theorem stderr_iff (c : ProcCalls) (stdErr : StreamArg) (hf : GoesOn f a) (hg : GoesOn g b) :
    AllOrNothing ((procStream c.stdErr true (StdStream.entry stdErr).declare).bind fun r =>
        if r.1 ≠ 0 then
          (cleanupStdout ⟨0, false, f.left false a, g.left true b, r.2⟩).bind fun s => .ok (r.1, s)
        else procSpawn c ⟨0, false, f.left false a, g.left true b, r.2⟩) ↔
      match fate c.stdErr stdErr with
      | .refused => f ≠ .idle ∧ g ≠ .idle ∧ stdErr ≠ .held
      | .doubled => False
      | h => if c.spawn ≠ 0 then f ≠ .idle ∧ g ≠ .idle ∧ h ≠ .idle else f ≠ .lost ∧ g ≠ .lost ∧ h ≠ .lost := by
  obtain ⟨err, hrun, hzero⟩ := stream_fate c.stdErr true stdErr
  rw [hrun]
  dsimp only [Except.bind]
  cases hfails : (fate c.stdErr stdErr).fails with
  | false =>
    rw [if_neg (not_not.mpr (hzero.mpr hfails))]
    refine (spawn_iff c rfl rfl hf rfl hg rfl (goes_on hfails)).trans ?_
    cases hfate : fate c.stdErr stdErr with
    | refused => rw [hfate] at hfails; cases hfails
    | doubled => rw [hfate] at hfails; cases hfails
    | idle => rfl
    | lost => rfl
    | piped => rfl
  | true =>
    have herr := fails_nonzero hzero hfails
    rw [if_pos herr]
    cases hfate : fate c.stdErr stdErr with
    | refused =>
      refine (cleanup_stdout_iff herr rfl rfl hf rfl hg (z := (StdStream.entry stdErr).declare) rfl).trans ?_
      rw [declared_shut]
    | doubled =>
      refine (cleanup_stdout_iff herr rfl rfl hf rfl hg (z := lostPipe.close .read) rfl).trans ?_
      exact iff_of_false (fun hall => doubled_not_shut true hall.2.2) id
    | idle => rw [hfate] at hfails; cases hfails
    | lost => rw [hfate] at hfails; cases hfails
    | piped => rw [hfate] at hfails; cases hfails

theorem fails_cases (hfails : f.fails = true) : f = .refused ∨ f = .doubled := by
  cases f with
  | refused => exact .inl rfl
  | doubled => exact .inr rfl
  | idle => cases hfails
  | lost => cases hfails
  | piped => cases hfails

/-- A start that `std_in` fails is over at once. -/
theorem stdin_fails_iff (c : ProcCalls) (stdIn stdOut stdErr : StreamArg)
    (hfails : (fate c.stdIn stdIn).fails = true) :
    AllOrNothing (procStreams c ⟨0, false, .entry stdIn, .entry stdOut, .entry stdErr⟩) ↔
      PipesSound c stdIn stdOut stdErr := by
  obtain ⟨err, hrun, hzero⟩ := stream_fate c.stdIn false stdIn
  have herr := fails_nonzero hzero hfails
  have hstart : procStreams c ⟨0, false, .entry stdIn, .entry stdOut, .entry stdErr⟩ =
      .ok (err, ⟨0, false, (fate c.stdIn stdIn).left false stdIn, .entry stdOut, .entry stdErr⟩) := by
    unfold procStreams
    simp only [bind, Except.bind, hrun]
    rw [if_pos herr]
    rfl
  rw [hstart, all_failed_iff herr rfl, entry_shut, entry_shut]
  unfold PipesSound
  rcases fails_cases hfails with hfate | hfate
  · rw [hfate]
    exact and_congr (declared_shut stdIn) Iff.rfl
  · rw [hfate]
    exact iff_of_false (fun hall => doubled_not_shut false hall.1) id

/-- A start that `std_out` fails reads the pipe of `std_err`, which is not declared yet. -/
theorem stdout_fails_not_all (c : ProcCalls) (stdIn stdOut stdErr : StreamArg)
    (hin : (fate c.stdIn stdIn).fails = false) (hout : (fate c.stdOut stdOut).fails = true) :
    ¬ AllOrNothing (procStreams c ⟨0, false, .entry stdIn, .entry stdOut, .entry stdErr⟩) := by
  obtain ⟨e, hrunIn, hzeroIn⟩ := stream_fate c.stdIn false stdIn
  obtain ⟨err, hrunOut, hzeroOut⟩ := stream_fate c.stdOut true stdOut
  have herr := fails_nonzero hzeroOut hout
  obtain ⟨fault, hfault⟩ := cleanup_stdin_unset (s := ⟨0, false, (fate c.stdIn stdIn).left false stdIn,
    (fate c.stdOut stdOut).left true stdOut, .entry stdErr⟩) rfl
  have hstart : procStreams c ⟨0, false, .entry stdIn, .entry stdOut, .entry stdErr⟩ = .error fault := by
    unfold procStreams
    simp only [bind, Except.bind, hrunIn, hrunOut]
    rw [if_neg (not_not.mpr (hzeroIn.mpr hin)), if_pos herr, hfault]
  rw [hstart]
  exact fault_not_all fault

theorem streams_iff (c : ProcCalls) (stdIn stdOut stdErr : StreamArg) :
    AllOrNothing (procStreams c ⟨0, false, .entry stdIn, .entry stdOut, .entry stdErr⟩) ↔
      PipesSound c stdIn stdOut stdErr := by
  cases hin : (fate c.stdIn stdIn).fails with
  | true => exact stdin_fails_iff c stdIn stdOut stdErr hin
  | false =>
    have hgoIn := goes_on hin
    cases hout : (fate c.stdOut stdOut).fails with
    | true =>
      refine iff_of_false (stdout_fails_not_all c stdIn stdOut stdErr hin hout) ?_
      unfold PipesSound
      rcases fails_cases hout with hfate | hfate
      · rw [hfate]
        rcases hgoIn with ⟨h, _⟩ | h | h <;> rw [h] <;> exact id
      · rw [hfate]
        rcases hgoIn with ⟨h, _⟩ | h | h <;> rw [h] <;> exact id
    | false =>
      have hgoOut := goes_on hout
      obtain ⟨e, hrunIn, hzeroIn⟩ := stream_fate c.stdIn false stdIn
      obtain ⟨e', hrunOut, hzeroOut⟩ := stream_fate c.stdOut true stdOut
      have hstage := stderr_iff c stdErr hgoIn hgoOut
      have hstart : procStreams c ⟨0, false, .entry stdIn, .entry stdOut, .entry stdErr⟩ =
          (procStream c.stdErr true (StdStream.entry stdErr).declare).bind fun r =>
            if r.1 ≠ 0 then
              (cleanupStdout ⟨0, false, (fate c.stdIn stdIn).left false stdIn,
                (fate c.stdOut stdOut).left true stdOut, r.2⟩).bind fun s => .ok (r.1, s)
            else procSpawn c ⟨0, false, (fate c.stdIn stdIn).left false stdIn,
              (fate c.stdOut stdOut).left true stdOut, r.2⟩ := by
        unfold procStreams
        simp only [bind, Except.bind, hrunIn, hrunOut]
        rw [if_neg (not_not.mpr (hzeroIn.mpr hin)), if_neg (not_not.mpr (hzeroOut.mpr hout))]
        rfl
      rw [hstart, hstage]
      unfold PipesSound
      rcases hgoIn with ⟨h, _⟩ | h | h <;> rcases hgoOut with ⟨h', _⟩ | h' | h' <;> rw [h, h'] <;>
        cases fate c.stdErr stdErr <;> rfl

end start

/-- A start is all or nothing exactly where it is sound. -/
theorem proc_start_all_iff (c : ProcCalls) (stdIn stdOut stdErr : StreamArg) :
    AllOrNothing (glbProcStart c stdIn stdOut stdErr) ↔ StreamsSound c stdIn stdOut stdErr := by
  unfold glbProcStart StreamsSound
  dsimp only
  by_cases hinit : c.attrInit ≠ 0
  · rw [if_pos hinit, if_pos (.inl hinit)]
    exact entry_failed_iff hinit stdIn stdOut stdErr
  · rw [if_neg hinit]
    by_cases hflags : c.setflags ≠ 0
    · rw [if_pos hflags, if_pos (.inr (.inl hflags))]
      exact entry_failed_iff hflags stdIn stdOut stdErr
    · rw [if_neg hflags]
      by_cases hfact : c.factInit ≠ 0
      · rw [if_pos hfact, if_pos (.inr (.inr hfact))]
        exact entry_failed_iff hfact stdIn stdOut stdErr
      · have hgo : ¬ (c.attrInit ≠ 0 ∨ c.setflags ≠ 0 ∨ c.factInit ≠ 0) := by
          rintro (h | h | h)
          · exact hinit h
          · exact hflags h
          · exact hfact h
        rw [if_neg hfact, if_neg hgo]
        exact streams_iff c stdIn stdOut stdErr

section runs

/-- A pipe of which no call fails. -/
def goodPipe : PipeCalls := ⟨true, 0, none, true, 0⟩

/-- Calls that all succeed, but for `posix_spawnp`. -/
def goodCalls (spawn : Int) : ProcCalls := ⟨0, 0, 0, goodPipe, goodPipe, goodPipe, spawn, 100⟩

/-- With all three streams a spawn may fail, and with those of `exec_thread` it may succeed. -/
theorem proc_start_all_good :
    AllOrNothing (glbProcStart (goodCalls 11) .empty .empty .empty) ∧ AllOrNothing (execStart (goodCalls 0)) :=
  ⟨(proc_start_all_iff _ _ _ _).mpr (by simp [StreamsSound, PipesSound, goodCalls, goodPipe, fate]),
    (proc_start_all_iff _ _ _ _).mpr (by simp [StreamsSound, PipesSound, goodCalls, goodPipe, fate])⟩

/-- The call in `exec_thread`, four times: `posix_spawnp` fails and `std_err` is `NULL`; the
pipe of `std_out` is refused and that of `std_err` is not set; there is no memory for the
stream of `std_in` and 0 is returned; `adddup2` fails and a descriptor is closed twice. -/
theorem exec_start_breaks :
    ¬ AllOrNothing (execStart (goodCalls 11)) ∧
    execStart (goodCalls 11) = .error .nullStream ∧
    execStart { goodCalls 0 with stdOut := { goodPipe with pipe := some ⟨24, by decide⟩ } } = .error .unset ∧
    (∃ s, execStart { goodCalls 0 with stdIn := { goodPipe with fdopen := false } } = .ok (0, s) ∧
      s.spawned = true ∧ s.stdIn.file = some none) ∧
    (∃ s, execStart { goodCalls 0 with stdIn := { goodPipe with adddup2 := 12 } } = .ok (12, s) ∧
      s.stdIn.opened.write = 1 ∧ s.stdIn.closed.write = 2) :=
  ⟨fault_not_all .nullStream, rfl, rfl, ⟨_, rfl, rfl, rfl⟩, ⟨_, rfl, rfl, rfl⟩⟩

end runs

end Glb.Proofs.Proc
