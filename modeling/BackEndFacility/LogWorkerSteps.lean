import BackEndFacility.LogWorker

/-!
# The steps of `Log` and `Flush`

What the step of a thread does to the queue of the log worker, to the buffers in use, and
to the entries on their way to the streams, whether or not a stream is good.  A thread
that is about to push finds room, so `DoLog` needs one attempt.
-/

namespace BackEndFacility
namespace LogWorker

/-! ## What they do to the queue -/

/-- Inside `Flush`. -/
def Pc.Flushing : Pc → Prop
  | .flushPop => True
  | .flushCheck _ => True
  | .flushWrite _ => True
  | .flushRelease _ => True
  | _ => False

/-- A step that puts nothing on the queue. -/
structure State.Takes (state next : State) (thread : ℕ) (pc : Pc) : Prop where
  pending : next.pending <:+ state.pending
  callers : next.callers = Function.update state.callers thread pc

section Steps

variable {size granularity thread : ℕ} {state next : State}

theorem call_takes {action : Action}
    (haction : (∃ fout sz, action = .logString thread fout sz) ∨
      (∃ fout, action = .logFormat thread fout) ∨ action = .flush thread)
    (hstep : state.step size granularity action = some next) :
    state.callers thread = .idle ∧ ∃ pc, state.Takes next thread pc := by
  rcases haction with ⟨fout, sz, rfl⟩ | ⟨fout, rfl⟩ | rfl
  · simp only [State.step] at hstep
    split_ifs at hstep with hidle
    · cases hstep
      exact ⟨hidle, _, List.suffix_rfl, rfl⟩
    · cases hstep
      exact ⟨hidle, _, List.suffix_rfl, rfl⟩
  · simp only [State.step] at hstep
    split_ifs at hstep with hidle
    cases hstep
    exact ⟨hidle, _, List.suffix_rfl, rfl⟩
  · simp only [State.step] at hstep
    split_ifs at hstep with hidle
    cases hstep
    exact ⟨hidle, _, List.suffix_rfl, rfl⟩

theorem advance_takes (hpc : ∀ log retry, state.callers thread ≠ .logPush log retry)
    (hstep : state.step size granularity (.advance thread) = some next) :
    ∃ pc, state.Takes next thread pc ∧
      ((state.callers thread).Flushing → pc.Flushing ∨ pc = .idle ∧ next.pending = []) := by
  simp only [State.step, State.advance] at hstep
  cases hcaller : state.callers thread with
  | idle => simp [hcaller] at hstep
  | logAlloc fout =>
      simp only [hcaller] at hstep
      split at hstep
      · cases hstep
        exact ⟨_, ⟨List.suffix_rfl, rfl⟩, fun hflushing => hflushing.elim⟩
      · cases hstep
        exact ⟨_, ⟨List.suffix_rfl, rfl⟩, fun hflushing => hflushing.elim⟩
  | logStamp log =>
      simp only [hcaller, Option.some.injEq] at hstep
      subst next
      exact ⟨_, ⟨List.suffix_rfl, rfl⟩, fun hflushing => hflushing.elim⟩
  | logPush log retry => exact absurd hcaller (hpc log retry)
  | flushPop =>
      simp only [hcaller] at hstep
      split at hstep
      · rename_i hnil
        cases hstep
        exact ⟨_, ⟨List.suffix_rfl, rfl⟩, fun _ => .inr ⟨rfl, hnil⟩⟩
      · rename_i log rest hcons
        cases hstep
        refine ⟨_, ⟨?_, rfl⟩, fun _ => .inl trivial⟩
        rw [hcons]
        exact List.suffix_cons log rest
  | flushCheck log =>
      simp only [hcaller] at hstep
      split_ifs at hstep
      · cases hstep
        exact ⟨_, ⟨List.suffix_rfl, rfl⟩, fun _ => .inl trivial⟩
      · cases hstep
        exact ⟨_, ⟨List.suffix_rfl, rfl⟩, fun _ => .inl trivial⟩
  | flushWrite log =>
      simp only [hcaller, Option.some.injEq] at hstep
      subst next
      exact ⟨_, ⟨List.suffix_rfl, rfl⟩, fun _ => .inl trivial⟩
  | flushRelease log =>
      simp only [hcaller, Option.some.injEq] at hstep
      subst next
      exact ⟨_, ⟨List.suffix_rfl, rfl⟩, fun _ => .inl trivial⟩

theorem advance_pushes {log : LogEntity} {retry : ℕ}
    (hpc : state.callers thread = .logPush log retry)
    (hstep : state.step size granularity (.advance thread) = some next) :
    next.pending =
        (if state.pending.length < size then state.pending ++ [log] else state.pending) ∧
      ∃ pc, next.callers = Function.update state.callers thread pc := by
  simp only [State.step, State.advance, hpc, State.doLog, Option.some.injEq] at hstep
  subst next
  by_cases hroom : state.pending.length < size
  · rw [if_pos hroom, if_pos hroom]
    exact ⟨rfl, _, rfl⟩
  · rw [if_neg hroom, if_neg hroom]
    by_cases hretry : retry < maxRetry
    · rw [if_pos hretry]
      exact ⟨rfl, _, rfl⟩
    · rw [if_neg hretry]
      exact ⟨rfl, _, rfl⟩

/-- The steps of `Flush` before it looks at the queue again. -/
def Pc.rank : Pc → ℕ
  | .flushCheck _ => 3
  | .flushWrite _ => 2
  | .flushRelease _ => 1
  | _ => 0

theorem flush_ranks (hflushing : (state.callers thread).Flushing) :
    ∃ next, state.step size granularity (.advance thread) = some next ∧
      (next.callers thread = .idle ∨ (next.callers thread).Flushing ∧
        4 * next.pending.length + (next.callers thread).rank <
          4 * state.pending.length + (state.callers thread).rank) := by
  simp only [State.step, State.advance]
  cases hpc : state.callers thread with
  | flushPop =>
      cases hpending : state.pending with
      | nil => exact ⟨_, rfl, .inl (Function.update_self thread _ _)⟩
      | cons log rest =>
          refine ⟨_, rfl, .inr ?_⟩
          simp only [State.goto, Function.update_self, Pc.rank, List.length_cons]
          exact ⟨trivial, by omega⟩
  | flushCheck log =>
      dsimp only
      by_cases hgood : state.good log.fout = true
      · rw [if_pos hgood]
        refine ⟨_, rfl, .inr ?_⟩
        simp only [State.goto, Function.update_self, Pc.rank]
        exact ⟨trivial, by omega⟩
      · rw [if_neg hgood]
        refine ⟨_, rfl, .inr ?_⟩
        simp only [State.goto, Function.update_self, Pc.rank]
        exact ⟨trivial, by omega⟩
  | flushWrite log =>
      refine ⟨_, rfl, .inr ?_⟩
      simp only [State.goto, Function.update_self, Pc.rank]
      exact ⟨trivial, by omega⟩
  | flushRelease log =>
      refine ⟨_, rfl, .inr ?_⟩
      simp only [State.goto, Function.update_self, Pc.rank]
      exact ⟨trivial, by omega⟩
  | idle =>
      rw [hpc] at hflushing
      exact hflushing.elim
  | logAlloc fout =>
      rw [hpc] at hflushing
      exact hflushing.elim
  | logStamp log =>
      rw [hpc] at hflushing
      exact hflushing.elim
  | logPush log retry =>
      rw [hpc] at hflushing
      exact hflushing.elim

end Steps

/-! ## The buffers in use -/

/-- Some numbers in a list, each once, and others in the hands of threads. -/
structure Apart (size : ℕ) (listed : List ℕ) (held : ℕ → Option ℕ) : Prop where
  nodup : listed.Nodup
  listed_lt : ∀ buffer ∈ listed, buffer < size
  held_lt : ∀ thread buffer, held thread = some buffer → buffer < size
  unlisted : ∀ thread buffer, held thread = some buffer → buffer ∉ listed
  once : ∀ thread other buffer, held thread = some buffer → held other = some buffer →
    thread = other

namespace Apart

variable {size thread buffer : ℕ} {listed listed' : List ℕ} {held : ℕ → Option ℕ}

theorem perm (hapart : Apart size listed held) (hperm : listed'.Perm listed) :
    Apart size listed' held where
  nodup := hperm.nodup_iff.mpr hapart.nodup
  listed_lt := fun buffer hmem => hapart.listed_lt buffer (hperm.mem_iff.mp hmem)
  held_lt := hapart.held_lt
  unlisted := fun thread buffer hheld hmem =>
    hapart.unlisted thread buffer hheld (hperm.mem_iff.mp hmem)
  once := hapart.once

theorem drop (hapart : Apart size listed held) (thread : ℕ) :
    Apart size listed (Function.update held thread none) := by
  have hheld : ∀ other buffer, Function.update held thread none other = some buffer →
      held other = some buffer := by
    intro other buffer hother
    by_cases heq : other = thread
    · subst heq
      rw [Function.update_self] at hother
      cases hother
    · rwa [Function.update_of_ne heq] at hother
  exact ⟨hapart.nodup, hapart.listed_lt,
    fun other buffer hother => hapart.held_lt other buffer (hheld other buffer hother),
    fun other buffer hother => hapart.unlisted other buffer (hheld other buffer hother),
    fun first second buffer hfirst hsecond => hapart.once first second buffer
      (hheld first buffer hfirst) (hheld second buffer hsecond)⟩

theorem take (hapart : Apart size (buffer :: listed) held) (thread : ℕ) :
    Apart size listed (Function.update held thread (some buffer)) := by
  obtain ⟨hfresh, hnodup⟩ := List.nodup_cons.mp hapart.nodup
  have hunheld : ∀ other, held other ≠ some buffer := fun other hother =>
    hapart.unlisted other buffer hother List.mem_cons_self
  refine ⟨hnodup, fun other hmem => hapart.listed_lt other (List.mem_cons_of_mem _ hmem),
    ?_, ?_, ?_⟩
  · intro other found hother
    by_cases heq : other = thread
    · subst heq
      rw [Function.update_self] at hother
      cases hother
      exact hapart.listed_lt buffer List.mem_cons_self
    · rw [Function.update_of_ne heq] at hother
      exact hapart.held_lt other found hother
  · intro other found hother
    by_cases heq : other = thread
    · subst heq
      rw [Function.update_self] at hother
      cases hother
      exact hfresh
    · rw [Function.update_of_ne heq] at hother
      exact fun hmem => hapart.unlisted other found hother (List.mem_cons_of_mem _ hmem)
  · intro first second found hfirst hsecond
    by_cases heq : first = thread
    · by_cases heq' : second = thread
      · rw [heq, heq']
      · subst heq
        rw [Function.update_self] at hfirst
        rw [Function.update_of_ne heq'] at hsecond
        cases hfirst
        exact absurd hsecond (hunheld second)
    · by_cases heq' : second = thread
      · subst heq'
        rw [Function.update_self] at hsecond
        rw [Function.update_of_ne heq] at hfirst
        cases hsecond
        exact absurd hfirst (hunheld first)
      · rw [Function.update_of_ne heq] at hfirst
        rw [Function.update_of_ne heq'] at hsecond
        exact hapart.once first second found hfirst hsecond

theorem give (hapart : Apart size listed held) (hheld : held thread = some buffer) :
    Apart size (buffer :: listed) (Function.update held thread none) := by
  have hdrop := hapart.drop thread
  refine ⟨List.nodup_cons.mpr ⟨hapart.unlisted thread buffer hheld, hapart.nodup⟩, ?_,
    hdrop.held_lt, ?_, hdrop.once⟩
  · intro other hmem
    rcases List.mem_cons.mp hmem with rfl | hmem
    · exact hapart.held_lt thread other hheld
    · exact hapart.listed_lt other hmem
  · intro other found hother hmem
    rcases List.mem_cons.mp hmem with rfl | hmem
    · by_cases heq : other = thread
      · subst heq
        rw [Function.update_self] at hother
        cases hother
      · rw [Function.update_of_ne heq] at hother
        exact heq (hapart.once other thread found hother hheld)
    · exact hdrop.unlisted other found hother hmem

theorem length_lt (hapart : Apart size listed held) (hheld : held thread = some buffer) :
    listed.length < size := by
  have hboth := hapart.give hheld
  have hsubset : buffer :: listed ⊆ List.range size := fun other hmem =>
    List.mem_range.mpr (hboth.listed_lt other hmem)
  have hlength := (List.subperm_of_subset hboth.nodup hsubset).length_le
  rw [List.length_cons, List.length_range] at hlength
  exact hlength

end Apart

/-- A buffer is listed once or in the hands of one thread, if it has not been dropped, and
no thread attempts a push for the second time. -/
structure State.Orderly (size : ℕ) (state : State) : Prop where
  apart : Apart size (state.free ++ state.pending.map LogEntity.buffer)
    (Pc.holds ∘ state.callers)
  first : ∀ thread log retry, state.callers thread = .logPush log retry → retry = 0

namespace State.Orderly

variable {size granularity thread : ℕ} {state next : State}

theorem construct (size : ℕ) : (LogWorker.construct size).Orderly size where
  apart := by
    have hheld : ∀ thread buffer,
        (Pc.holds ∘ (LogWorker.construct size).callers) thread ≠ some buffer := by
      intro thread buffer hheld
      cases hheld
    refine ⟨?_, ?_, fun thread buffer hbuffer => absurd hbuffer (hheld thread buffer),
      fun thread buffer hbuffer => absurd hbuffer (hheld thread buffer),
      fun thread _ buffer hbuffer => absurd hbuffer (hheld thread buffer)⟩
    · rw [LogWorker.construct, List.map_nil, List.append_nil]
      exact List.nodup_range
    · intro buffer hmem
      rw [LogWorker.construct, List.map_nil, List.append_nil] at hmem
      exact List.mem_range.mp hmem
  first := by
    intro thread log retry hpc
    cases hpc

theorem room (horderly : state.Orderly size) {log : LogEntity} {retry : ℕ}
    (hpc : state.callers thread = .logPush log retry) : state.pending.length < size := by
  have hheld : (Pc.holds ∘ state.callers) thread = some log.buffer := by
    rw [Function.comp_apply, hpc]
    rfl
  have hlength := horderly.apart.length_lt hheld
  rw [List.length_append, List.length_map] at hlength
  omega

theorem move {pc : Pc} {listed : List ℕ} (horderly : state.Orderly size)
    (hapart : Apart size listed (Function.update (Pc.holds ∘ state.callers) thread pc.holds))
    (hlisted : (next.free ++ next.pending.map LogEntity.buffer).Perm listed)
    (hcallers : next.callers = Function.update state.callers thread pc)
    (hfirst : ∀ log retry, pc = .logPush log retry → retry = 0) : next.Orderly size where
  apart := by
    rw [hcallers, Function.comp_update]
    exact hapart.perm hlisted
  first := by
    intro other log retry hother
    rw [hcallers] at hother
    by_cases heq : other = thread
    · subst heq
      rw [Function.update_self] at hother
      exact hfirst log retry hother
    · rw [Function.update_of_ne heq] at hother
      exact horderly.first other log retry hother

theorem stay {pc : Pc} (horderly : state.Orderly size) (hfree : next.free = state.free)
    (hpending : next.pending = state.pending)
    (hcallers : next.callers = Function.update state.callers thread pc)
    (hholds : pc.holds = (state.callers thread).holds)
    (hfirst : ∀ log retry, pc = .logPush log retry → retry = 0) : next.Orderly size := by
  apply horderly.move _ (List.Perm.refl _) hcallers hfirst
  rw [hholds, hfree, hpending]
  have hsame := Function.update_eq_self thread (Pc.holds ∘ state.callers)
  rw [Function.comp_apply] at hsame
  rw [hsame]
  exact horderly.apart

theorem advance (horderly : state.Orderly size)
    (hstep : state.advance size granularity thread = some next) : next.Orderly size := by
  have hheld : ∀ pc, state.callers thread = pc →
      (Pc.holds ∘ state.callers) thread = pc.holds := by
    intro pc hpc
    rw [Function.comp_apply, hpc]
  unfold State.advance at hstep
  cases hpc : state.callers thread with
  | idle => simp [hpc] at hstep
  | logAlloc fout =>
      simp only [hpc] at hstep
      split at hstep
      · cases hstep
        exact horderly.stay rfl rfl rfl (by rw [hpc]; rfl) (by simp)
      · rename_i buffer rest hfree
        cases hstep
        have hapart := horderly.apart
        rw [hfree, List.cons_append] at hapart
        exact horderly.move (hapart.take thread) (List.Perm.refl _) rfl (by simp)
  | logStamp log =>
      simp only [hpc, Option.some.injEq] at hstep
      subst next
      refine horderly.stay rfl rfl rfl (by rw [hpc]; rfl) ?_
      intro other retry hother
      cases hother
      rfl
  | logPush log retry =>
      simp only [hpc, State.doLog, if_pos (horderly.room hpc), Option.some.injEq] at hstep
      subst next
      refine horderly.move (horderly.apart.give (hheld _ hpc)) ?_ rfl (by simp)
      change (state.free ++ (state.pending ++ [log]).map LogEntity.buffer).Perm _
      rw [List.map_append, List.map_singleton, ← List.append_assoc]
      exact List.perm_append_singleton _ _
  | flushPop =>
      simp only [hpc] at hstep
      split at hstep
      · cases hstep
        exact horderly.stay rfl rfl rfl (by rw [hpc]; rfl) (by simp)
      · rename_i log rest hpending
        cases hstep
        have hapart := horderly.apart
        rw [hpending, List.map_cons] at hapart
        exact horderly.move ((hapart.perm List.perm_middle.symm).take thread) (List.Perm.refl _)
          rfl (by simp)
  | flushCheck log =>
      simp only [hpc] at hstep
      split_ifs at hstep
      · cases hstep
        exact horderly.stay rfl rfl rfl (by rw [hpc]; rfl) (by simp)
      · cases hstep
        exact horderly.move (horderly.apart.drop thread) (List.Perm.refl _) rfl (by simp)
  | flushWrite log =>
      simp only [hpc, Option.some.injEq] at hstep
      subst next
      exact horderly.stay rfl rfl rfl (by rw [hpc]; rfl) (by simp)
  | flushRelease log =>
      simp only [hpc, Option.some.injEq] at hstep
      subst next
      exact horderly.move (horderly.apart.give (hheld _ hpc)) (List.Perm.refl _) rfl (by simp)

theorem step {action : Action} (horderly : state.Orderly size)
    (hstep : state.step size granularity action = some next) : next.Orderly size := by
  cases action with
  | advance thread => exact horderly.advance hstep
  | logString thread fout sz =>
      simp only [State.step] at hstep
      split_ifs at hstep with hidle
      · cases hstep
        exact horderly.stay rfl rfl rfl (by rw [hidle]) (by simp)
      · cases hstep
        exact horderly.stay rfl rfl rfl (by rw [hidle]; rfl) (by simp)
  | logFormat thread fout =>
      simp only [State.step] at hstep
      split_ifs at hstep with hidle
      cases hstep
      exact horderly.stay rfl rfl rfl (by rw [hidle]; rfl) (by simp)
  | flush thread =>
      simp only [State.step] at hstep
      split_ifs at hstep with hidle
      cases hstep
      exact horderly.stay rfl rfl rfl (by rw [hidle]; rfl) (by simp)
  | turn fout good =>
      simp only [State.step, Option.some.injEq] at hstep
      subst next
      exact ⟨horderly.apart, horderly.first⟩

end State.Orderly

/-! ## From the queue to the streams -/

/-- One step on the way of the entries from the queue to their streams. -/
inductive Drains (state next : State) : Prop
  | still {thread : ℕ} {pc : Pc}
      (hpc : ∀ log, state.callers thread ≠ .flushCheck log ∧
        state.callers thread ≠ .flushWrite log)
      (hpending : state.pending <+: next.pending) (hwritten : next.written = state.written)
      (hcallers : next.callers = Function.update state.callers thread pc)
  | pop {thread : ℕ} {log : LogEntity} (hpc : state.callers thread = .flushPop)
      (hpending : state.pending = log :: next.pending) (hwritten : next.written = state.written)
      (hcallers : next.callers = Function.update state.callers thread (.flushCheck log))
  | check {thread : ℕ} {log : LogEntity} (hpc : state.callers thread = .flushCheck log)
      (hpending : next.pending = state.pending) (hwritten : next.written = state.written)
      (hcallers : next.callers = Function.update state.callers thread (.flushWrite log))
  | write {thread : ℕ} {log : LogEntity} (hpc : state.callers thread = .flushWrite log)
      (hpending : next.pending = state.pending)
      (hwritten : next.written = state.written ++ [log])
      (hcallers : next.callers = Function.update state.callers thread (.flushRelease log))

section Drain

variable {size granularity : ℕ} {state next : State}

theorem drains_of_idle {thread : ℕ} {pc : Pc} (hidle : state.callers thread = .idle)
    (hpending : next.pending = state.pending) (hwritten : next.written = state.written)
    (hcallers : next.callers = Function.update state.callers thread pc) :
    Drains state next := by
  refine .still ?_ (by rw [hpending]) hwritten hcallers
  intro log
  rw [hidle]
  simp

theorem drains_of_advance {thread : ℕ} (hgood : FindsGood state (.advance thread))
    (hstep : state.advance size granularity thread = some next) : Drains state next := by
  unfold State.advance at hstep
  cases hpc : state.callers thread with
  | idle => simp [hpc] at hstep
  | logAlloc fout =>
      simp only [hpc] at hstep
      split at hstep
      · cases hstep
        exact .still (by simp [hpc]) List.prefix_rfl rfl rfl
      · cases hstep
        exact .still (by simp [hpc]) List.prefix_rfl rfl rfl
  | logStamp log =>
      simp only [hpc, Option.some.injEq] at hstep
      subst next
      exact .still (by simp [hpc]) List.prefix_rfl rfl rfl
  | logPush log retry =>
      simp only [hpc, State.doLog, Option.some.injEq] at hstep
      subst next
      split_ifs
      · exact .still (by simp [hpc]) (List.prefix_append _ _) rfl rfl
      · exact .still (by simp [hpc]) (List.prefix_append _ _) rfl rfl
      · exact .still (by simp [hpc]) List.prefix_rfl rfl rfl
      · exact .still (by simp [hpc]) List.prefix_rfl rfl rfl
  | flushPop =>
      simp only [hpc] at hstep
      split at hstep
      · cases hstep
        exact .still (by simp [hpc]) List.prefix_rfl rfl rfl
      · rename_i log rest hpending
        cases hstep
        exact .pop hpc hpending rfl rfl
  | flushCheck log =>
      simp only [hpc, hgood log hpc, if_true, Option.some.injEq] at hstep
      subst next
      exact .check hpc rfl rfl rfl
  | flushWrite log =>
      simp only [hpc, Option.some.injEq] at hstep
      subst next
      exact .write hpc rfl rfl rfl
  | flushRelease log =>
      simp only [hpc, Option.some.injEq] at hstep
      subst next
      exact .still (by simp [hpc]) List.prefix_rfl rfl rfl

theorem drains_of_step {action : Action} (hgood : FindsGood state action)
    (hstep : state.step size granularity action = some next) :
    next.callers = state.callers ∧ next.pending = state.pending ∧
      next.written = state.written ∨ Drains state next := by
  cases action with
  | advance thread => exact .inr (drains_of_advance hgood hstep)
  | logString thread fout sz =>
      simp only [State.step] at hstep
      split_ifs at hstep with hidle
      · cases hstep
        exact .inr (drains_of_idle hidle rfl rfl rfl)
      · cases hstep
        exact .inr (drains_of_idle hidle rfl rfl rfl)
  | logFormat thread fout =>
      simp only [State.step] at hstep
      split_ifs at hstep with hidle
      cases hstep
      exact .inr (drains_of_idle hidle rfl rfl rfl)
  | flush thread =>
      simp only [State.step] at hstep
      split_ifs at hstep with hidle
      cases hstep
      exact .inr (drains_of_idle hidle rfl rfl rfl)
  | turn fout good =>
      simp only [State.step, Option.some.injEq] at hstep
      subst next
      exact .inl ⟨rfl, rfl, rfl⟩

/-- An entry is on its stream, behind what was there, or a thread is about to put it
there. -/
def State.Handled (before : List LogEntity) (state : State) (log : LogEntity) : Prop :=
  (∃ new, state.written = before ++ new ∧ log ∈ new) ∨
    ∃ thread, state.callers thread = .flushCheck log ∨ state.callers thread = .flushWrite log

/-- `queue` has been taken off `pending` from the front so far as it has been handled. -/
structure State.Handles (before queue : List LogEntity) (state : State) : Prop where
  written : before <+: state.written
  pending : ∃ gone old, queue = gone ++ old ∧ old <+: state.pending ∧
    ∀ log ∈ gone, state.Handled before log

theorem State.Handled.keep {before : List LogEntity} {log : LogEntity} {thread : ℕ} {pc : Pc}
    (hhandled : state.Handled before log) (hwritten : state.written <+: next.written)
    (hcallers : next.callers = Function.update state.callers thread pc)
    (hthread : state.callers thread = .flushCheck log ∨
      state.callers thread = .flushWrite log → next.Handled before log) :
    next.Handled before log := by
  rcases hhandled with ⟨new, hnew, hmem⟩ | ⟨other, hother⟩
  · obtain ⟨more, hmore⟩ := hwritten
    refine .inl ⟨new ++ more, ?_, List.mem_append_left more hmem⟩
    rw [← hmore, hnew, List.append_assoc]
  · by_cases heq : other = thread
    · subst heq
      exact hthread hother
    · refine .inr ⟨other, ?_⟩
      rwa [hcallers, Function.update_of_ne heq]

theorem State.Handled.drains {before : List LogEntity} {log : LogEntity}
    (hhandled : state.Handled before log) (hbefore : before <+: state.written)
    (hdrains : Drains state next) : next.Handled before log := by
  cases hdrains with
  | still hpc hpending hwritten hcallers =>
      refine hhandled.keep (by rw [hwritten]) hcallers ?_
      rintro (hcheck | hwrite)
      · exact absurd hcheck (hpc log).1
      · exact absurd hwrite (hpc log).2
  | pop hpc hpending hwritten hcallers =>
      refine hhandled.keep (by rw [hwritten]) hcallers ?_
      rw [hpc]
      simp
  | check hpc hpending hwritten hcallers =>
      rename_i thread found
      refine hhandled.keep (by rw [hwritten]) hcallers ?_
      intro hfound
      have heq : found = log := by simpa [hpc] using hfound
      refine .inr ⟨thread, .inr ?_⟩
      rw [hcallers, Function.update_self, heq]
  | write hpc hpending hwritten hcallers =>
      rename_i thread found
      refine hhandled.keep (by rw [hwritten]; exact List.prefix_append _ _) hcallers ?_
      intro hfound
      have heq : found = log := by simpa [hpc] using hfound
      obtain ⟨new, hnew⟩ := hbefore
      refine .inl ⟨new ++ [found], ?_, ?_⟩
      · rw [hwritten, ← hnew, List.append_assoc]
      · simp [heq]

theorem State.Handles.drains {before queue : List LogEntity}
    (hhandles : state.Handles before queue) (hdrains : Drains state next) :
    next.Handles before queue := by
  obtain ⟨hwritten, gone, old, hqueue, hold, hgone⟩ := hhandles
  have hkept : ∀ log ∈ gone, next.Handled before log :=
    fun log hmem => (hgone log hmem).drains hwritten hdrains
  cases hdrains with
  | still hpc hpending hsame hcallers =>
      exact ⟨by rwa [hsame], gone, old, hqueue, hold.trans hpending, hkept⟩
  | check hpc hpending hsame hcallers =>
      exact ⟨by rwa [hsame], gone, old, hqueue, by rwa [hpending], hkept⟩
  | write hpc hpending hmore hcallers =>
      refine ⟨?_, gone, old, hqueue, by rwa [hpending], hkept⟩
      rw [hmore]
      exact hwritten.trans (List.prefix_append _ _)
  | pop hpc hpending hsame hcallers =>
      rename_i thread log
      refine ⟨by rwa [hsame], ?_⟩
      rw [hpending] at hold
      rcases List.prefix_cons_iff.mp hold with rfl | ⟨rest, rfl, hrest⟩
      · exact ⟨gone, [], hqueue, List.nil_prefix, hkept⟩
      · refine ⟨gone ++ [log], rest, by rw [hqueue, List.append_assoc]; rfl, hrest, ?_⟩
        intro found hmem
        rcases List.mem_append.mp hmem with hmem | hmem
        · exact hkept found hmem
        · obtain rfl := List.mem_singleton.mp hmem
          exact .inr ⟨thread, .inl (by rw [hcallers, Function.update_self])⟩

theorem State.Handled.step {before : List LogEntity} {log : LogEntity} {action : Action}
    (hhandled : state.Handled before log) (hbefore : before <+: state.written)
    (hgood : FindsGood state action) (hstep : state.step size granularity action = some next) :
    next.Handled before log := by
  rcases drains_of_step hgood hstep with ⟨hcallers, -, hwritten⟩ | hdrains
  · rwa [State.Handled, hwritten, hcallers]
  · exact hhandled.drains hbefore hdrains

theorem State.Handles.step {before queue : List LogEntity} {action : Action}
    (hhandles : state.Handles before queue) (hgood : FindsGood state action)
    (hstep : state.step size granularity action = some next) : next.Handles before queue := by
  rcases drains_of_step hgood hstep with ⟨-, hpending, hwritten⟩ | hdrains
  · obtain ⟨hbefore, gone, old, hqueue, hold, hgone⟩ := hhandles
    exact ⟨by rwa [hwritten], gone, old, hqueue, by rwa [hpending],
      fun log hmem => (hgone log hmem).step hbefore hgood hstep⟩
  · exact hhandles.drains hdrains

theorem State.Handles.all {before queue : List LogEntity} {log : LogEntity}
    (hhandles : state.Handles before queue) (hnil : state.pending = []) (hmem : log ∈ queue) :
    state.Handled before log := by
  obtain ⟨-, gone, old, rfl, hold, hgone⟩ := hhandles
  rw [hnil, List.prefix_nil] at hold
  rw [hold, List.append_nil] at hmem
  exact hgone log hmem

end Drain

end LogWorker
end BackEndFacility
