import BackEndFacility.AsynLogOwnership

/-!
# The end of the logging thread

`Stop` clears `m_running`, wakes the logging thread up and joins it.  From then
on nobody can push any more: an `Append` that is still inside fails its assertion,
which ends the process.  The logging thread writes what is pending, finds nothing
more and leaves; the number of steps it takes is bounded by the number of entries
that are pending when it is told to stop.
-/

namespace BackEndFacility
namespace AsynLog

/-- A round of the logging thread. -/
def Action.isLog : Action → Bool
  | .log _ _ _ => true
  | _ => false

/-- The steps that the logging thread has still to make once it is told to stop. -/
def State.rank (state : State) : ℕ :=
  let again := if state.pb1 = [] then 1 else state.pb1.length + 4
  match state.logger with
  | .top => again
  | .waiting _ => again
  | .writing i => state.pb2.length - i + 2 + again
  | .clearing => 1 + again
  | .terminated => 0

/-- The entries pass the assertion of `LogFile::Append`. -/
def State.Sized (state : State) : Prop :=
  ∀ msg ∈ state.pb1 ++ state.pb2, msg.len ≤ LogFile.defBuffSize

theorem rank_le (state : State) :
    state.rank ≤ state.pb1.length + state.pb2.length + 6 := by
  have hagain : (if state.pb1 = [] then 1 else state.pb1.length + 4) ≤
      state.pb1.length + 4 := by
    split
    · omega
    · exact le_rfl
  unfold State.rank
  cases state.logger <;> simp only <;> omega

/-! ## Steps of the other threads -/

section Produce

variable {state next : State} {thread fresh : ℕ}

/-- What a thread inside `Append`, or one that exits, does to the pending entries. -/
structure Pushes (state next : State) : Prop where
  logger : next.logger = state.logger
  pb2 : next.pb2 = state.pb2
  pb1 : next.pb1 = state.pb1 ∨ ∃ msg, state.running = true ∧
    msg.len ≤ buffSize ∧ next.pb1 = state.pb1 ++ [msg]
  returned : state.running = false → next.returned = state.returned

theorem pushes_addToWriter (state : State) {msg : LogMsg} (hlen : msg.len ≤ buffSize)
    (producer : Producer) :
    Pushes state ((state.addToWriter msg).setProducer thread producer) := by
  unfold State.addToWriter
  split
  next hrunning =>
      exact ⟨rfl, rfl, .inr ⟨msg, hrunning, hlen, rfl⟩, fun _ => rfl⟩
  next => exact ⟨rfl, rfl, .inl rfl, fun _ => rfl⟩

theorem pushes_of_produce (hinv : state.Invariant)
    (hstep : state.produce thread fresh = some next) : Pushes state next := by
  have hretired : ∀ buffer, (BufferSlice.retire buffer).len ≤ buffSize :=
    fun _ => Nat.zero_le _
  unfold State.produce at hstep
  cases hpc : (state.producers thread).pc with
  | push msg offset =>
      have hfits : Fits msg := by
        have hsound := hinv.sound thread
        unfold Producer.Sound at hsound
        simp only [hpc] at hsound
        exact hsound.1
      simp only [hpc] at hstep
      split at hstep
      next buffer hitem =>
          split at hstep
          next hrunning =>
              cases hstep
              refine ⟨?_, ?_, .inr ⟨⟨msg.length, buffer, offset⟩, hrunning, hfits.2, ?_⟩, ?_⟩
              all_goals simp [State.addToWriter, State.setProducer, hrunning]
          next hstopped =>
              cases hstep
              refine ⟨?_, ?_, .inl ?_, ?_⟩
              all_goals simp [State.addToWriter, hstopped]
      next =>
          cases hstep
          exact ⟨rfl, rfl, .inl rfl, fun _ => rfl⟩
  | _ =>
      simp only [hpc] at hstep
      repeat' split at hstep
      all_goals cases hstep
      all_goals
        first
        | exact ⟨rfl, rfl, .inl rfl, fun _ => rfl⟩
        | exact pushes_addToWriter state (hretired _) _

end Produce

/-! ## Steps of the logging thread -/

section Log

variable {state next : State} {script : List WriteResult} {grown1 grown2 : Bool}

theorem swapOrLeave_sized (hsized : state.Sized) : state.swapOrLeave.Sized := by
  unfold State.swapOrLeave
  split
  · exact hsized
  · intro msg hmsg
    exact hsized msg (List.mem_append.mpr (List.mem_append.mp hmsg).symm)

theorem shrunk_sized (hsized : state.Sized) (idle : ℕ) :
    (if idle + 1 = 8 then state.shrinkMemoryUsage grown1 grown2 else state).Sized := by
  split
  next =>
      intro msg hmsg
      rcases List.mem_append.mp hmsg with hfirst | hsecond
      · unfold State.shrinkMemoryUsage at hfirst
        simp only at hfirst
        split at hfirst
        · cases hfirst
        · exact hsized msg (List.mem_append_left _ hfirst)
      · unfold State.shrinkMemoryUsage at hsecond
        simp only at hsecond
        split at hsecond
        · cases hsecond
        · exact hsized msg (List.mem_append_right _ hsecond)
  next => exact hsized

theorem log_sized (hsized : state.Sized)
    (hstep : state.log script grown1 grown2 = some next) : next.Sized := by
  unfold State.log at hstep
  split at hstep
  next =>
      split at hstep
      · cases hstep
        exact hsized
      · cases hstep
        exact swapOrLeave_sized hsized
  next idle hlogger =>
      split at hstep
      · have hshrunk : (if idle + 1 = 8 then state.shrinkMemoryUsage grown1 grown2
            else state).Sized := shrunk_sized hsized idle
        generalize (if idle + 1 = 8 then state.shrinkMemoryUsage grown1 grown2 else state) =
          shrunk at hstep hshrunk
        simp only at hstep
        split at hstep
        · cases hstep
          exact hshrunk
        · cases hstep
          exact swapOrLeave_sized hshrunk
      · cases hstep
        exact swapOrLeave_sized hsized
  next =>
      repeat' split at hstep
      all_goals
        cases hstep
        try exact hsized
  next =>
      cases hstep
      intro msg hmsg
      rw [List.append_nil] at hmsg
      exact hsized msg (List.mem_append_left _ hmsg)
  next => cases hstep

theorem swapOrLeave_stopped (hstopped : state.running = false) (hcleared : state.pb2 = []) :
    state.swapOrLeave.aborted = state.aborted ∧
      state.swapOrLeave.returned = state.returned ∧
      state.swapOrLeave.rank < if state.pb1 = [] then 1 else state.pb1.length + 4 := by
  unfold State.swapOrLeave
  cases hpb1 : state.pb1 with
  | nil => simp [hstopped, State.rank]
  | cons msg rest => simp [State.rank, hcleared]

theorem log_stopped (hinv : state.Invariant) (hsized : state.Sized)
    (hstopped : state.running = false)
    (hstep : state.log script grown1 grown2 = some next) :
    next.aborted = state.aborted ∧ next.returned = state.returned ∧
      next.rank < state.rank := by
  have hcleared := hinv.cleared
  unfold State.log at hstep
  cases hlogger : state.logger with
  | top =>
      have hrank : state.rank = if state.pb1 = [] then 1 else state.pb1.length + 4 := by
        simp [State.rank, hlogger]
      simp only [hlogger, hstopped] at hstep hcleared
      cases hstep
      rw [hrank]
      exact swapOrLeave_stopped hstopped (hcleared trivial)
  | waiting idle =>
      have hrank : state.rank = if state.pb1 = [] then 1 else state.pb1.length + 4 := by
        simp [State.rank, hlogger]
      simp only [hlogger] at hstep hcleared
      rw [hrank]
      split at hstep
      next hempty =>
          have hnil : state.pb1 = [] := List.isEmpty_iff.mp hempty
          have hshrunk : ∀ shrunk : State, shrunk = (if idle + 1 = 8 then
              state.shrinkMemoryUsage grown1 grown2 else state) →
              shrunk.running = false ∧ shrunk.pb1 = [] ∧ shrunk.pb2 = [] ∧
                shrunk.aborted = state.aborted ∧ shrunk.returned = state.returned := by
            rintro shrunk rfl
            split
            · simp [State.shrinkMemoryUsage, hstopped, hnil, hcleared trivial]
            · exact ⟨hstopped, hnil, hcleared trivial, rfl, rfl⟩
          generalize hwhich : (if idle + 1 = 8 then state.shrinkMemoryUsage grown1 grown2
            else state) = shrunk at hstep
          obtain ⟨hnot, hpb1, hpb2, haborted, hreturned⟩ := hshrunk shrunk hwhich.symm
          simp only [hnot] at hstep
          cases hstep
          obtain ⟨hsame, hsays, hlower⟩ := swapOrLeave_stopped hnot hpb2
          rw [hpb1] at hlower
          rw [hnil, ← haborted, ← hreturned]
          exact ⟨hsame, hsays, hlower⟩
      next =>
          cases hstep
          exact swapOrLeave_stopped hstopped (hcleared trivial)
  | writing i =>
      simp only [hlogger] at hstep
      split at hstep
      next hend =>
          have hlast := List.getElem?_eq_none_iff.mp hend
          split at hstep
          · cases hstep
          · cases hstep
            refine ⟨rfl, rfl, ?_⟩
            simp only [State.rank, hlogger]
            omega
      next msg hmsg =>
          obtain ⟨hlt, hget⟩ := List.getElem?_eq_some_iff.mp hmsg
          have hlen : msg.len ≤ LogFile.defBuffSize :=
            hsized msg (List.mem_append_right _ (List.mem_of_getElem? hmsg))
          have hlower : state.pb2.length - (i + 1) < state.pb2.length - i := by omega
          split at hstep
          · cases hstep
            refine ⟨rfl, rfl, ?_⟩
            simp only [State.rank, hlogger]
            omega
          · rw [if_neg (Nat.not_lt.mpr hlen)] at hstep
            split at hstep
            · cases hstep
            · cases hstep
              refine ⟨rfl, rfl, ?_⟩
              simp only [State.rank, hlogger]
              omega
  | clearing =>
      simp only [hlogger] at hstep
      cases hstep
      refine ⟨rfl, rfl, ?_⟩
      simp only [State.rank, hlogger]
      omega
  | terminated => simp [hlogger] at hstep

theorem log_goes_on (hsized : state.Sized) (hlogger : state.logger ≠ .terminated) :
    ∃ script, LogFile.Reliable script ∧
      ∀ grown1 grown2, ∃ next, state.log script grown1 grown2 = some next := by
  obtain ⟨script, hreliable, hwhole⟩ :=
    LogFile.appendRaw_whole state.logFile.fileBuff state.logFile.written
  have hflush : state.logFile.flush script =
      some (⟨state.logFile.written ++ state.logFile.fileBuff, []⟩, []) := by
    have hall := hwhole []
    rw [List.append_nil] at hall
    simp only [LogFile.flush, hall]
  refine ⟨script, hreliable, fun grown1 grown2 => ?_⟩
  unfold State.log
  cases hpc : state.logger with
  | top =>
      simp only
      split
      all_goals exact ⟨_, rfl⟩
  | waiting idle =>
      simp only
      repeat' split
      all_goals exact ⟨_, rfl⟩
  | writing i =>
      simp only
      split
      next => simp [hflush]
      next msg hmsg =>
          have hlen : msg.len ≤ LogFile.defBuffSize :=
            hsized msg (List.mem_append_right _ (List.mem_of_getElem? hmsg))
          split
          · exact ⟨_, rfl⟩
          · rw [if_neg (Nat.not_lt.mpr hlen)]
            unfold LogFile.append
            split_ifs
            · simp [hflush]
            · simp
  | clearing => exact ⟨_, rfl⟩
  | terminated => exact absurd hpc hlogger

end Log

/-! ## Whole runs -/

section Runs

variable {state next : State} {action : Action}

theorem Pushes.sized (hpushes : Pushes state next) (hsized : state.Sized) : next.Sized := by
  intro msg hmsg
  rw [hpushes.pb2] at hmsg
  rcases hpushes.pb1 with hsame | ⟨pushed, -, hlen, hnew⟩
  · rw [hsame] at hmsg
    exact hsized msg hmsg
  · rw [hnew, List.append_assoc, List.mem_append, List.mem_append, List.mem_singleton] at hmsg
    rcases hmsg with hold | rfl | hold
    · exact hsized msg (List.mem_append_left _ hold)
    · exact hlen
    · exact hsized msg (List.mem_append_right _ hold)

theorem sized_step (hinv : state.Invariant) (hsized : state.Sized)
    (hstep : state.step action = some next) : next.Sized := by
  unfold State.step at hstep
  split at hstep
  · cases hstep
  cases action with
  | produce thread fresh => exact (pushes_of_produce hinv hstep).sized hsized
  | log script grown1 grown2 => exact log_sized hsized hstep
  | _ =>
      simp only at hstep
      repeat' split at hstep
      all_goals
        cases hstep
        try exact hsized

/-- The appender after `Stop`: what was returned by then is all there will be. -/
structure State.Ending (returned : List (ℕ × List UInt8)) (state : State) : Prop where
  inv : state.Invariant
  sized : state.Sized
  stopped : state.running = false
  kept : state.returned = returned

/-- A thread that is not inside a call stays outside. -/
structure State.Deserted (state : State) : Prop where
  outside : ∀ thread, ¬ (state.producers thread).pc.Inside
  alive : state.aborted = false

theorem ending_step {returned : List (ℕ × List UInt8)} (hending : state.Ending returned)
    (hassumed : Assumed state action) (hstep : state.step action = some next) :
    next.Ending returned ∧
      next.rank + (if action.isLog then 1 else 0) ≤ state.rank ∧
      (state.Deserted → next.Deserted) := by
  have hinv := hending.inv.step hassumed hstep
  have hsized := sized_step hending.inv hending.sized hstep
  unfold State.step at hstep
  split at hstep
  · cases hstep
  cases action with
  | append thread msg =>
      have hrunning : state.running = true := hassumed.1
      rw [hending.stopped] at hrunning
      cases hrunning
  | produce thread fresh =>
      have hpushes := pushes_of_produce hending.inv hstep
      have hpb1 : next.pb1 = state.pb1 := by
        rcases hpushes.pb1 with hsame | ⟨msg, hrunning, -, -⟩
        · exact hsame
        · rw [hending.stopped] at hrunning
          cases hrunning
      refine ⟨⟨hinv, hsized, ?_, ?_⟩, ?_, ?_⟩
      · exact (State.produce_frame hstep).1.trans hending.stopped
      · exact (hpushes.returned hending.stopped).trans hending.kept
      · simp [State.rank, hpushes.logger, hpushes.pb2, hpb1, Action.isLog]
      · intro hdeserted
        have houtside := hdeserted.outside thread
        unfold State.produce at hstep
        cases hpc : (state.producers thread).pc with
        | idle => simp [hpc] at hstep
        | exited => simp [hpc] at hstep
        | _ => exact absurd (by rw [hpc]; trivial) houtside
  | exit thread =>
      simp only [hending.stopped] at hstep
      have hleft : next = state.setProducer thread ⟨.exited, none⟩ := by
        split at hstep
        all_goals
          cases hstep
          try rfl
      subst hleft
      refine ⟨⟨hinv, hsized, hending.stopped, hending.kept⟩, le_rfl,
        fun hdeserted => ⟨fun other => ?_, hdeserted.alive⟩⟩
      by_cases heq : other = thread
      · subst heq
        simp [State.setProducer, ProducerPc.Inside]
      · rw [(State.setProducer_frame state thread _).2 other heq]
        exact hdeserted.outside other
  | stop => simp [hending.stopped] at hstep
  | log script grown1 grown2 =>
      obtain ⟨halive, hreturned, hlower⟩ :=
        log_stopped hending.inv hending.sized hending.stopped hstep
      obtain ⟨hrunning, hproducers⟩ := State.log_frame hstep
      refine ⟨⟨hinv, hsized, ?_, ?_⟩, ?_, fun hdeserted => ⟨fun other => ?_, ?_⟩⟩
      · exact hrunning.trans hending.stopped
      · exact hreturned.trans hending.kept
      · simpa [Action.isLog] using hlower
      · rw [hproducers]
        exact hdeserted.outside other
      · exact halive.trans hdeserted.alive

end Runs

/-- After `Stop` the logging thread takes a bounded number of steps, however the threads are
interleaved.  Unless an assertion fails it goes on until it has terminated, and then the file
holds all that was returned.  Nobody's assertion fails if no thread was inside a call. -/
theorem stopped_terminates {garbage : ℕ → ℕ → UInt8} {state final : State}
    {schedule : List Action} (hreached : (machine garbage).ReachedBy Assumed state)
    (hstopped : state.running = false)
    (hadmits : (machine garbage).Admits Assumed state schedule)
    (hrun : (machine garbage).runFrom state schedule = some final) :
    schedule.countP Action.isLog ≤ state.pb1.length + state.pb2.length + 6 ∧
      (final.aborted = true ∨
        (final.logger = .terminated ∧
          final.logFile.written = state.returned.flatMap Prod.snd) ∨
        ∃ script, LogFile.Reliable script ∧ ∀ grown1 grown2, ∃ next,
          (machine garbage).step final (.log script grown1 grown2) = some next) ∧
      (final.aborted = true →
        state.aborted = true ∨ ∃ thread, (state.producers thread).pc.Inside) := by
  have hsound : state.Invariant ∧ state.Sized := by
    refine hreached.invariant (fun state => state.Invariant ∧ state.Sized) ?_ ?_
    · exact ⟨start_invariant garbage, by simp [State.Sized, machine, start]⟩
    · intro before action after hbefore hassumed hstep
      exact ⟨hbefore.1.step hassumed hstep, sized_step hbefore.1 hbefore.2 hstep⟩
  have hending : state.Ending state.returned := ⟨hsound.1, hsound.2, hstopped, rfl⟩
  obtain ⟨hfinal, hbound⟩ := hadmits.countP_add_rank_le (State.Ending state.returned)
    State.rank Action.isLog
    (fun _ _ _ hstate hassumed hstep =>
      ⟨(ending_step hstate hassumed hstep).1, (ending_step hstate hassumed hstep).2.1⟩)
    hrun hending
  have hrank := rank_le state
  refine ⟨by omega, ?_, fun haborted => ?_⟩
  · by_cases haborted : final.aborted = true
    · exact .inl haborted
    · by_cases hlogger : final.logger = .terminated
      · refine .inr (.inl ⟨hlogger, ?_⟩)
        rw [hfinal.inv.delivered_all.complete hlogger, hfinal.kept]
      · obtain ⟨script, hreliable, hgoes⟩ := log_goes_on hfinal.sized hlogger
        refine .inr (.inr ⟨script, hreliable, fun grown1 grown2 => ?_⟩)
        obtain ⟨next, hstep⟩ := hgoes grown1 grown2
        refine ⟨next, ?_⟩
        simp only [machine, State.step]
        rw [if_neg (by simp [haborted, hfinal.inv.intact])]
        exact hstep
  · by_contra hnobody
    simp only [not_or, not_exists, Bool.not_eq_true] at hnobody
    have hdeserted : final.Ending state.returned ∧ final.Deserted :=
      hadmits.invariant (fun state' => state'.Ending state.returned ∧ state'.Deserted)
        (fun _ _ _ hstate hassumed hstep =>
          ⟨(ending_step hstate.1 hassumed hstep).1,
            (ending_step hstate.1 hassumed hstep).2.2 hstate.2⟩)
        hrun ⟨hending, hnobody.2, hnobody.1⟩
    rw [hdeserted.2.alive] at haborted
    cases haborted

/-- One message is in the file's buffer and one is still pending when `Stop` comes. -/
def stoppedWhileWriting : List Action :=
  [.append 0 [104, 105], .produce 0 0, .produce 0 0, .produce 0 0, .produce 0 0,
    .log [] false false, .log [] false false, .log [] false false,
    .append 0 [33], .produce 0 0, .produce 0 0, .produce 0 0, .stop]

theorem stopped_terminates_whileWriting :
    ∃ state final, (machine fun _ _ => 0).run stoppedWhileWriting = some state ∧
      (machine fun _ _ => 0).runFrom state [.log [.wrote 2] false false] = some final ∧
      1 ≤ state.pb1.length + state.pb2.length + 6 ∧
      (final.aborted = true ∨
        (final.logger = .terminated ∧
          final.logFile.written = state.returned.flatMap Prod.snd) ∨
        ∃ script, LogFile.Reliable script ∧ ∀ grown1 grown2, ∃ next,
          (machine fun _ _ => 0).step final (.log script grown1 grown2) = some next) ∧
      (final.aborted = true →
        state.aborted = true ∨ ∃ thread, (state.producers thread).pc.Inside) := by
  have hreached : ∀ state, (machine fun _ _ => 0).run stoppedWhileWriting = some state →
      (machine fun _ _ => 0).ReachedBy Assumed state :=
    fun _ hrun => Machine.ReachedBy.runFrom .start (by decide +kernel) hrun
  refine ⟨_, _, rfl, rfl, ?_⟩
  exact @stopped_terminates _ _ _ [.log [.wrote 2] false false] (hreached _ rfl) rfl
    ⟨by decide, fun _ _ => trivial⟩ rfl

end AsynLog
end BackEndFacility
