import BackEndFacility.LogWorker

/-!
# Loggers and the streams they delete

A `Logger` owns the stream `fout_` points to: `SetOutStream` and the destructor delete
it.  The entries in `pendingMsg_` hold copies of that pointer, and no operation of a
logger looks at the queue.

The worker is that of `LogWorker`.  A stream is named by a number that is not used
again, and 0 is the null pointer.  What the language leaves undefined, the use of a
deleted stream and a second `delete`, is not enabled.
-/

namespace BackEndFacility
namespace Logger

open LogWorker (LogEntity Pc)

/-- `loggers` gives `fout_` for each `Logger` object that exists; `opened` is the number
of the next stream.  The other components record the run: the stream of the logger at
each call of `Log`, which is the message with that index; the message a thread logs or
flushes; the messages in the entries of `pendingMsg_`; those `DoLog` has pushed; what
was written to which stream; and the messages `Flush` dropped since their stream was
not good. -/
structure State where
  worker : LogWorker.State
  loggers : ℕ → Option ℕ
  live : ℕ → Bool
  opened : ℕ
  logged : List ℕ
  inHand : ℕ → ℕ
  entries : List (LogEntity × ℕ)
  accepted : List ℕ
  reached : List (ℕ × ℕ)
  dropped : List ℕ

/-- The constructor throws if the file cannot be opened.  `newStream` is a stream the
program makes for `SetOutStream`. -/
inductive Action where
  | construct (logger : ℕ) (opens : Bool)
  | newStream
  | setOutStream (logger fout : ℕ)
  | destroy (logger : ℕ)
  | logString (thread logger sz : ℕ)
  | logFormat (thread logger : ℕ)
  | flush (thread : ℕ)
  | advance (thread : ℕ)
  | turn (fout : ℕ) (good : Bool)
  deriving DecidableEq, Repr

def start (size : ℕ) : State where
  worker := LogWorker.construct size
  loggers := fun _ => none
  live := fun _ => false
  opened := 1
  logged := []
  inHand := fun _ => 0
  entries := []
  accepted := []
  reached := []
  dropped := []

/-- The entry a thread in `Flush` has taken and not yet written. -/
def flushing : Pc → Option LogEntity
  | .flushCheck log => some log
  | .flushWrite log => some log
  | _ => none

namespace State

def openStream (state : State) : State :=
  { state with
    live := Function.update state.live state.opened true
    opened := state.opened + 1 }

/-- `if (fout_) delete fout_;` -/
def delete (state : State) (fout : ℕ) : Option State :=
  if fout = 0 then some state
  else if state.live fout then
    some { state with live := Function.update state.live fout false }
  else none

/-- `Logger::Log` hands `fout_` to the worker. -/
def log (size granularity : ℕ) (state : State) (thread logger : ℕ)
    (call : ℕ → LogWorker.Action) : Option State :=
  match state.loggers logger with
  | none => none
  | some fout =>
      (state.worker.step size granularity (call fout)).map fun worker =>
        { state with
          worker := worker
          logged := state.logged ++ [fout]
          inHand := Function.update state.inHand thread state.logged.length }

/-- What the next step of a thread does to the record. -/
def account (size : ℕ) (state : State) (thread : ℕ) : State :=
  match state.worker.callers thread with
  | .logPush log _ =>
      if state.worker.pending.length < size then
        { state with
          entries := state.entries ++ [(log, state.inHand thread)]
          accepted := state.accepted ++ [state.inHand thread] }
      else state
  | .flushPop =>
      match state.entries with
      | [] => state
      | entry :: rest =>
          { state with
            entries := rest
            inHand := Function.update state.inHand thread entry.2 }
  | .flushCheck log =>
      if state.worker.good log.fout then state
      else { state with dropped := state.dropped ++ [state.inHand thread] }
  | .flushWrite log =>
      { state with reached := state.reached ++ [(log.fout, state.inHand thread)] }
  | _ => state

/-- The next step of a thread uses only a stream that exists. -/
def usable (state : State) (thread : ℕ) : Bool :=
  match flushing (state.worker.callers thread) with
  | some log => state.live log.fout
  | none => true

def step (size granularity : ℕ) (state : State) : Action → Option State
  | .construct logger opens =>
      match state.loggers logger with
      | some _ => none
      | none =>
          if opens then
            some { state.openStream with
              loggers := Function.update state.loggers logger (some state.opened) }
          else some state.openStream
  | .newStream => some state.openStream
  | .setOutStream logger fout =>
      match state.loggers logger with
      | none => none
      | some old =>
          if fout = 0 ∨ state.live fout then
            (state.delete old).map fun next =>
              { next with loggers := Function.update state.loggers logger (some fout) }
          else none
  | .destroy logger =>
      match state.loggers logger with
      | none => none
      | some old =>
          (state.delete old).map fun next =>
            { next with loggers := Function.update state.loggers logger none }
  | .logString thread logger sz =>
      state.log size granularity thread logger fun fout => .logString thread fout sz
  | .logFormat thread logger =>
      state.log size granularity thread logger fun fout => .logFormat thread fout
  | .flush thread =>
      (state.worker.step size granularity (.flush thread)).map fun worker =>
        { state with worker := worker }
  | .advance thread =>
      if state.usable thread then
        (state.worker.advance size granularity thread).map fun worker =>
          { state.account size thread with worker := worker }
      else none
  | .turn fout good =>
      (state.worker.step size granularity (.turn fout good)).map fun worker =>
        { state with worker := worker }

end State

def machine (size granularity : ℕ) : Machine State Action where
  start := start size
  step := State.step size granularity

/-! ## The condition and the property -/

/-- The stream a call in progress will put into an entry or write to. -/
def stream : Pc → Option ℕ
  | .logAlloc fout => some fout
  | .logStamp log => some log.fout
  | .logPush log _ => some log.fout
  | .flushCheck log => some log.fout
  | .flushWrite log => some log.fout
  | _ => none

/-- No entry and no call in progress refers to the stream. -/
def State.Unused (state : State) (fout : ℕ) : Prop :=
  (∀ log ∈ state.worker.pending, log.fout ≠ fout) ∧
    ∀ thread, stream (state.worker.callers thread) ≠ some fout

/-- A logger's stream is deleted only when nothing refers to it, and `Log` is called
only on a logger whose stream exists. -/
def KeepsStreams (state : State) : Action → Prop
  | .setOutStream logger _ => ∀ fout, state.loggers logger = some fout → state.Unused fout
  | .destroy logger => ∀ fout, state.loggers logger = some fout → state.Unused fout
  | .logString _ logger _ =>
      ∀ fout, state.loggers logger = some fout → state.live fout = true
  | .logFormat _ logger => ∀ fout, state.loggers logger = some fout → state.live fout = true
  | _ => True

/-- Where a message meant for a stream is: in an entry for this stream, with a thread
that is about to write it there, on the stream, or dropped since the stream was not
good. -/
def State.Whereabouts (state : State) (fout message : ℕ) : Prop :=
  (∃ log, (log, message) ∈ state.entries ∧ log.fout = fout) ∨
    (∃ thread log, flushing (state.worker.callers thread) = some log ∧
      state.inHand thread = message ∧ log.fout = fout) ∨
    (fout, message) ∈ state.reached ∨ message ∈ state.dropped

structure State.NoneOutlives (state : State) : Prop where
  carried : state.entries.map Prod.fst = state.worker.pending
  pendingLive : ∀ log ∈ state.worker.pending, state.live log.fout = true
  flushLive : ∀ thread log, flushing (state.worker.callers thread) = some log →
    state.live log.fout = true
  reachesOwn : ∀ fout message, (fout, message) ∈ state.reached →
    state.logged[message]? = some fout
  reaches : ∀ message ∈ state.accepted, ∃ fout, state.logged[message]? = some fout ∧
    state.Whereabouts fout message

/-! ## The invariant -/

/-- The stream exists and is the one the logger had. -/
def State.Meant (state : State) (fout message : ℕ) : Prop :=
  state.live fout = true ∧ state.logged[message]? = some fout

structure State.Sound (state : State) : Prop where
  carried : state.entries.map Prod.fst = state.worker.pending
  entryMeant : ∀ entry ∈ state.entries, state.Meant entry.1.fout entry.2
  callMeant : ∀ thread fout, stream (state.worker.callers thread) = some fout →
    state.Meant fout (state.inHand thread)
  reachesOwn : ∀ fout message, (fout, message) ∈ state.reached →
    state.logged[message]? = some fout
  traced : ∀ message ∈ state.accepted, ∃ fout, state.logged[message]? = some fout ∧
    state.Whereabouts fout message

theorem State.inHand_eq_update (state : State) (thread : ℕ) :
    state.inHand = Function.update state.inHand thread (state.inHand thread) :=
  (Function.update_eq_self thread state.inHand).symm

theorem stream_of_flushing {pc : Pc} {log : LogEntity} (hflushing : flushing pc = some log) :
    stream pc = some log.fout := by
  cases pc with
  | flushCheck entry =>
      obtain rfl := Option.some.inj hflushing
      rfl
  | flushWrite entry =>
      obtain rfl := Option.some.inj hflushing
      rfl
  | _ => cases hflushing

namespace State.Sound

variable {state next : State}

theorem start (size : ℕ) : (start size).Sound := by
  refine ⟨rfl, ?_, ?_, ?_, ?_⟩
  · exact fun _ hmem => absurd hmem List.not_mem_nil
  · intro thread fout hstream
    cases hstream
  · exact fun _ _ hmem => absurd hmem List.not_mem_nil
  · exact fun _ hmem => absurd hmem List.not_mem_nil

theorem noneOutlives (hsound : state.Sound) : state.NoneOutlives := by
  refine ⟨hsound.carried, ?_, ?_, hsound.reachesOwn, hsound.traced⟩
  · intro log hlog
    rw [← hsound.carried] at hlog
    obtain ⟨entry, hentry, rfl⟩ := List.mem_map.mp hlog
    exact (hsound.entryMeant entry hentry).1
  · intro thread log hflushing
    exact (hsound.callMeant thread log.fout (stream_of_flushing hflushing)).1

theorem relive (hsound : state.Sound) {live : ℕ → Bool} {loggers : ℕ → Option ℕ} {opened : ℕ}
    (hlive : ∀ fout, state.live fout = true → ¬ state.Unused fout → live fout = true) :
    ({ state with live := live, loggers := loggers, opened := opened }).Sound := by
  refine ⟨hsound.carried, ?_, ?_, hsound.reachesOwn, hsound.traced⟩
  · intro entry hentry
    obtain ⟨halive, hmeant⟩ := hsound.entryMeant entry hentry
    refine ⟨hlive _ halive ?_, hmeant⟩
    intro hunused
    refine hunused.1 entry.1 ?_ rfl
    rw [← hsound.carried]
    exact List.mem_map_of_mem hentry
  · intro thread fout hstream
    obtain ⟨halive, hmeant⟩ := hsound.callMeant thread fout hstream
    exact ⟨hlive _ halive fun hunused => hunused.2 thread hstream, hmeant⟩

theorem openStream (hsound : state.Sound) (loggers : ℕ → Option ℕ) :
    ({ state.openStream with loggers := loggers }).Sound := by
  apply hsound.relive
  intro fout halive _
  show Function.update state.live state.opened true fout = true
  by_cases heq : fout = state.opened
  · rw [heq, Function.update_self]
  · rw [Function.update_of_ne heq]
    exact halive

theorem delete (hsound : state.Sound) {fout : ℕ} (hunused : state.Unused fout)
    (hdelete : state.delete fout = some next) (loggers : ℕ → Option ℕ) :
    ({ next with loggers := loggers }).Sound := by
  unfold State.delete at hdelete
  split at hdelete
  · obtain rfl := Option.some.inj hdelete
    exact hsound.relive fun _ halive _ => halive
  · split at hdelete
    · obtain rfl := Option.some.inj hdelete
      apply hsound.relive
      intro other halive hused
      have hne : other ≠ fout := by
        intro heq
        rw [heq] at hused
        exact hused hunused
      show Function.update state.live fout false other = true
      rw [Function.update_of_ne hne]
      exact halive
    · cases hdelete

/-- A step of one thread.  What it brings into the queue, onto a stream and into its
hands is meant for the stream it goes with, and no message is lost. -/
theorem goTo (hsound : state.Sound) {thread message : ℕ} {pc : Pc}
    (hcallers : next.worker.callers = Function.update state.worker.callers thread pc)
    (hinHand : next.inHand = Function.update state.inHand thread message)
    (hlive : next.live = state.live) (hlogged : state.logged <+: next.logged)
    (hcarried : next.entries.map Prod.fst = next.worker.pending)
    (hpc : ∀ fout, stream pc = some fout → next.Meant fout message)
    (hentries : ∀ entry ∈ next.entries,
      entry ∈ state.entries ∨ next.Meant entry.1.fout entry.2)
    (hreached : ∀ pair ∈ next.reached, pair ∈ state.reached ∨ next.Meant pair.1 pair.2)
    (haccepted : ∀ m ∈ next.accepted, m ∈ state.accepted ∨
      ∃ fout, next.Meant fout m ∧ next.Whereabouts fout m)
    (hkept : ∀ fout m, state.Whereabouts fout m → next.Whereabouts fout m) :
    next.Sound := by
  have hrecord : ∀ fout m : ℕ, state.logged[m]? = some fout → next.logged[m]? = some fout := by
    intro fout m hrecorded
    obtain ⟨more, hmore⟩ := hlogged
    rw [← hmore, List.getElem?_append_left (List.getElem?_eq_some_iff.mp hrecorded).1]
    exact hrecorded
  have hmeant : ∀ fout m, state.Meant fout m → next.Meant fout m := by
    intro fout m hbefore
    refine ⟨?_, hrecord fout m hbefore.2⟩
    rw [hlive]
    exact hbefore.1
  refine ⟨hcarried, ?_, ?_, ?_, ?_⟩
  · intro entry hentry
    rcases hentries entry hentry with hold | hnew
    · exact hmeant _ _ (hsound.entryMeant entry hold)
    · exact hnew
  · intro other fout hstream
    rw [hcallers] at hstream
    rw [hinHand]
    by_cases heq : other = thread
    · subst heq
      rw [Function.update_self] at hstream ⊢
      exact hpc fout hstream
    · rw [Function.update_of_ne heq] at hstream ⊢
      exact hmeant _ _ (hsound.callMeant other fout hstream)
  · intro fout m hpair
    rcases hreached (fout, m) hpair with hold | hnew
    · exact hrecord fout m (hsound.reachesOwn fout m hold)
    · exact hnew.2
  · intro m hm
    rcases haccepted m hm with hold | ⟨fout, hnew, hwhere⟩
    · obtain ⟨fout, hrecorded, hwhere⟩ := hsound.traced m hold
      exact ⟨fout, hrecord fout m hrecorded, hkept fout m hwhere⟩
    · exact ⟨fout, hnew.2, hwhere⟩

end State.Sound

theorem State.Whereabouts.carry {state next : State} {fout m thread message : ℕ} {pc : Pc}
    (hwhere : state.Whereabouts fout m)
    (hcallers : next.worker.callers = Function.update state.worker.callers thread pc)
    (hinHand : next.inHand = Function.update state.inHand thread message)
    (hentries : ∀ log, (log, m) ∈ state.entries → log.fout = fout → next.Whereabouts fout m)
    (hown : ∀ log, flushing (state.worker.callers thread) = some log →
      state.inHand thread = m → log.fout = fout → next.Whereabouts fout m)
    (hreached : state.reached ⊆ next.reached) (hdropped : state.dropped ⊆ next.dropped) :
    next.Whereabouts fout m := by
  rcases hwhere with ⟨log, hentry, hfout⟩ | ⟨other, log, hflushing, hhand, hfout⟩ | hout | hlost
  · exact hentries log hentry hfout
  · by_cases heq : other = thread
    · subst heq
      exact hown log hflushing hhand hfout
    · refine Or.inr (Or.inl ⟨other, log, ?_, ?_, hfout⟩)
      · rw [hcallers, Function.update_of_ne heq]
        exact hflushing
      · rw [hinHand, Function.update_of_ne heq]
        exact hhand
  · exact Or.inr (Or.inr (Or.inl (hreached hout)))
  · exact Or.inr (Or.inr (Or.inr (hdropped hlost)))

namespace State.Sound

variable {state next : State}

theorem quiet (hsound : state.Sound) {worker : LogWorker.State} {thread : ℕ} (pc : Pc)
    (hcallers : worker.callers = Function.update state.worker.callers thread pc)
    (hpending : worker.pending = state.worker.pending)
    (hstream : ∀ fout, stream pc = some fout →
      stream (state.worker.callers thread) = some fout)
    (hflushing : ∀ log, flushing (state.worker.callers thread) = some log →
      flushing pc = some log) :
    ({ state with worker := worker }).Sound := by
  have hinHand := state.inHand_eq_update thread
  refine hsound.goTo hcallers hinHand rfl (List.prefix_refl _) ?_ ?_ ?_ ?_ ?_ ?_
  · rw [hpending]
    exact hsound.carried
  · exact fun fout hpc => hsound.callMeant thread fout (hstream fout hpc)
  · exact fun _ hentry => Or.inl hentry
  · exact fun _ hpair => Or.inl hpair
  · exact fun _ hm => Or.inl hm
  · intro fout m hwhere
    refine hwhere.carry hcallers hinHand ?_ ?_ ?_ ?_
    · exact fun log hentry hfout => Or.inl ⟨log, hentry, hfout⟩
    · intro log hbefore hhand hfout
      refine Or.inr (Or.inl ⟨thread, log, ?_, hhand, hfout⟩)
      rw [hcallers, Function.update_self]
      exact hflushing log hbefore
    · exact List.Subset.refl _
    · exact List.Subset.refl _

theorem log (hsound : state.Sound) {worker : LogWorker.State} {thread fout : ℕ} {pc : Pc}
    (hcallers : worker.callers = Function.update state.worker.callers thread pc)
    (hpending : worker.pending = state.worker.pending)
    (hidle : state.worker.callers thread = .idle)
    (hstream : ∀ other, stream pc = some other → other = fout)
    (hlive : state.live fout = true) :
    ({ state with
      worker := worker
      logged := state.logged ++ [fout]
      inHand := Function.update state.inHand thread state.logged.length }).Sound := by
  refine hsound.goTo hcallers rfl rfl (List.prefix_append _ _) ?_ ?_ ?_ ?_ ?_ ?_
  · rw [hpending]
    exact hsound.carried
  · intro other hpc
    rw [hstream other hpc]
    exact ⟨hlive, List.getElem?_concat_length⟩
  · exact fun _ hentry => Or.inl hentry
  · exact fun _ hpair => Or.inl hpair
  · exact fun _ hm => Or.inl hm
  · intro other m hwhere
    refine hwhere.carry hcallers rfl ?_ ?_ ?_ ?_
    · exact fun log hentry hfout => Or.inl ⟨log, hentry, hfout⟩
    · intro log hbefore _ _
      rw [hidle] at hbefore
      cases hbefore
    · exact List.Subset.refl _
    · exact List.Subset.refl _

theorem push (hsound : state.Sound) {worker : LogWorker.State} {thread : ℕ}
    {entity : LogEntity} {retry : ℕ}
    (hcallers : worker.callers = Function.update state.worker.callers thread .idle)
    (hpending : worker.pending = state.worker.pending ++ [entity])
    (hpc : state.worker.callers thread = .logPush entity retry) :
    ({ state with
      worker := worker
      entries := state.entries ++ [(entity, state.inHand thread)]
      accepted := state.accepted ++ [state.inHand thread] }).Sound := by
  have hinHand := state.inHand_eq_update thread
  have hmeant : state.Meant entity.fout (state.inHand thread) := by
    apply hsound.callMeant
    rw [hpc]
    rfl
  refine hsound.goTo hcallers hinHand rfl (List.prefix_refl _) ?_ ?_ ?_ ?_ ?_ ?_
  · rw [hpending, ← hsound.carried, List.map_append]
    rfl
  · exact nofun
  · intro entry hentry
    rcases List.mem_append.mp hentry with hold | hnew
    · exact Or.inl hold
    · rw [List.mem_singleton.mp hnew]
      exact Or.inr hmeant
  · exact fun _ hpair => Or.inl hpair
  · intro m hm
    rcases List.mem_append.mp hm with hold | hnew
    · exact Or.inl hold
    · rw [List.mem_singleton.mp hnew]
      refine Or.inr ⟨entity.fout, hmeant, Or.inl ⟨entity, ?_, rfl⟩⟩
      exact List.mem_append_right _ (List.mem_singleton_self _)
  · intro fout m hwhere
    refine hwhere.carry hcallers hinHand ?_ ?_ ?_ ?_
    · exact fun log hentry hfout => Or.inl ⟨log, List.mem_append_left _ hentry, hfout⟩
    · intro log hbefore _ _
      rw [hpc] at hbefore
      cases hbefore
    · exact List.Subset.refl _
    · exact List.Subset.refl _

/-- `Flush` takes the first entry. -/
theorem pop (hsound : state.Sound) {worker : LogWorker.State} {thread message : ℕ}
    {entity : LogEntity} {rest : List (LogEntity × ℕ)}
    (hcallers : worker.callers = Function.update state.worker.callers thread (.flushCheck entity))
    (hpending : worker.pending = rest.map Prod.fst)
    (hentries : state.entries = (entity, message) :: rest)
    (hpc : state.worker.callers thread = .flushPop) :
    ({ state with
      worker := worker
      entries := rest
      inHand := Function.update state.inHand thread message }).Sound := by
  have hfirst : (entity, message) ∈ state.entries := by
    rw [hentries]
    exact List.mem_cons_self
  have hrest : ∀ entry ∈ rest, entry ∈ state.entries := by
    intro entry hentry
    rw [hentries]
    exact List.mem_cons_of_mem _ hentry
  refine hsound.goTo hcallers rfl rfl (List.prefix_refl _) ?_ ?_ ?_ ?_ ?_ ?_
  · exact hpending.symm
  · intro fout hstream
    obtain rfl := Option.some.inj hstream
    exact hsound.entryMeant _ hfirst
  · exact fun entry hentry => Or.inl (hrest entry hentry)
  · exact fun _ hpair => Or.inl hpair
  · exact fun _ hm => Or.inl hm
  · intro fout m hwhere
    refine hwhere.carry hcallers rfl ?_ ?_ ?_ ?_
    · intro log hentry hfout
      rw [hentries] at hentry
      rcases List.mem_cons.mp hentry with hhead | htail
      · obtain ⟨rfl, rfl⟩ := Prod.mk.inj hhead
        refine Or.inr (Or.inl ⟨thread, log, ?_, Function.update_self _ _ _, hfout⟩)
        rw [hcallers, Function.update_self]
        rfl
      · exact Or.inl ⟨log, htail, hfout⟩
    · intro log hbefore _ _
      rw [hpc] at hbefore
      cases hbefore
    · exact List.Subset.refl _
    · exact List.Subset.refl _

theorem drop (hsound : state.Sound) {worker : LogWorker.State} {thread : ℕ} (pc : Pc)
    (hcallers : worker.callers = Function.update state.worker.callers thread pc)
    (hpending : worker.pending = state.worker.pending) (hstream : stream pc = none) :
    ({ state with
      worker := worker
      dropped := state.dropped ++ [state.inHand thread] }).Sound := by
  have hinHand := state.inHand_eq_update thread
  refine hsound.goTo hcallers hinHand rfl (List.prefix_refl _) ?_ ?_ ?_ ?_ ?_ ?_
  · rw [hpending]
    exact hsound.carried
  · intro fout hsome
    rw [hstream] at hsome
    cases hsome
  · exact fun _ hentry => Or.inl hentry
  · exact fun _ hpair => Or.inl hpair
  · exact fun _ hm => Or.inl hm
  · intro fout m hwhere
    refine hwhere.carry hcallers hinHand ?_ ?_ ?_ ?_
    · exact fun log hentry hfout => Or.inl ⟨log, hentry, hfout⟩
    · intro log _ hhand _
      rw [← hhand]
      exact Or.inr (Or.inr (Or.inr (List.mem_append_right _ (List.mem_singleton_self _))))
    · exact List.Subset.refl _
    · exact List.subset_append_left _ _

theorem write (hsound : state.Sound) {worker : LogWorker.State} {thread : ℕ}
    {entity : LogEntity} (pc : Pc)
    (hcallers : worker.callers = Function.update state.worker.callers thread pc)
    (hpending : worker.pending = state.worker.pending) (hstream : stream pc = none)
    (hpc : flushing (state.worker.callers thread) = some entity) :
    ({ state with
      worker := worker
      reached := state.reached ++ [(entity.fout, state.inHand thread)] }).Sound := by
  have hinHand := state.inHand_eq_update thread
  have hmeant : state.Meant entity.fout (state.inHand thread) :=
    hsound.callMeant thread entity.fout (stream_of_flushing hpc)
  refine hsound.goTo hcallers hinHand rfl (List.prefix_refl _) ?_ ?_ ?_ ?_ ?_ ?_
  · rw [hpending]
    exact hsound.carried
  · intro fout hsome
    rw [hstream] at hsome
    cases hsome
  · exact fun _ hentry => Or.inl hentry
  · intro pair hpair
    rcases List.mem_append.mp hpair with hold | hnew
    · exact Or.inl hold
    · rw [List.mem_singleton.mp hnew]
      exact Or.inr hmeant
  · exact fun _ hm => Or.inl hm
  · intro fout m hwhere
    refine hwhere.carry hcallers hinHand ?_ ?_ ?_ ?_
    · exact fun log hentry hfout => Or.inl ⟨log, hentry, hfout⟩
    · intro log hbefore hhand hfout
      have hsame : entity = log := Option.some.inj (hpc.symm.trans hbefore)
      rw [← hhand, ← hfout, ← hsame]
      exact Or.inr (Or.inr (Or.inl (List.mem_append_right _ (List.mem_singleton_self _))))
    · exact List.subset_append_left _ _
    · exact List.Subset.refl _

theorem advance (hsound : state.Sound) {size granularity thread : ℕ} {worker : LogWorker.State}
    (hworker : state.worker.advance size granularity thread = some worker) :
    ({ state.account size thread with worker := worker }).Sound := by
  unfold LogWorker.State.advance at hworker
  unfold State.account
  cases hpc : state.worker.callers thread with
  | idle =>
      simp only [hpc] at hworker
      cases hworker
  | logAlloc fout =>
      simp only [hpc] at hworker
      split at hworker
      · obtain rfl := Option.some.inj hworker
        exact hsound.quiet .idle rfl rfl nofun (by rw [hpc]; exact nofun)
      next buffer rest hfree =>
        obtain rfl := Option.some.inj hworker
        refine hsound.quiet (.logStamp ⟨buffer, fout⟩) rfl rfl ?_ (by rw [hpc]; exact nofun)
        rw [hpc]
        exact fun _ hsame => hsame
  | logStamp log =>
      simp only [hpc] at hworker
      obtain rfl := Option.some.inj hworker
      refine hsound.quiet (.logPush log 0) rfl rfl ?_ (by rw [hpc]; exact nofun)
      rw [hpc]
      exact fun _ hsame => hsame
  | logPush log retry =>
      simp only [hpc] at hworker ⊢
      obtain rfl := Option.some.inj hworker
      unfold LogWorker.State.doLog
      by_cases hroom : state.worker.pending.length < size
      · rw [if_pos hroom, if_pos hroom]
        exact hsound.push rfl rfl hpc
      · rw [if_neg hroom, if_neg hroom]
        split
        · refine hsound.quiet (.logPush log (retry + 1)) rfl rfl ?_ (by rw [hpc]; exact nofun)
          rw [hpc]
          exact fun _ hsame => hsame
        · exact hsound.quiet .idle rfl rfl nofun (by rw [hpc]; exact nofun)
  | flushPop =>
      have hcarried := hsound.carried
      simp only [hpc] at hworker ⊢
      cases hentries : state.entries with
      | nil =>
          rw [hentries, List.map_nil] at hcarried
          rw [← hcarried] at hworker
          obtain rfl := Option.some.inj hworker
          exact hsound.quiet .idle rfl rfl nofun (by rw [hpc]; exact nofun)
      | cons entry rest =>
          rw [hentries, List.map_cons] at hcarried
          rw [← hcarried] at hworker
          obtain rfl := Option.some.inj hworker
          exact hsound.pop rfl rfl hentries hpc
  | flushCheck log =>
      simp only [hpc] at hworker ⊢
      split at hworker
      next hgood =>
        obtain rfl := Option.some.inj hworker
        rw [if_pos hgood]
        refine hsound.quiet (.flushWrite log) rfl rfl ?_ ?_
        all_goals
          rw [hpc]
          exact fun _ hsame => hsame
      next hbad =>
        obtain rfl := Option.some.inj hworker
        rw [if_neg hbad]
        exact hsound.drop .flushPop rfl rfl rfl
  | flushWrite log =>
      simp only [hpc] at hworker
      obtain rfl := Option.some.inj hworker
      exact hsound.write (.flushRelease log) rfl rfl rfl (by rw [hpc]; rfl)
  | flushRelease log =>
      simp only [hpc] at hworker
      obtain rfl := Option.some.inj hworker
      exact hsound.quiet .flushPop rfl rfl nofun (by rw [hpc]; exact nofun)

theorem logCall (hsound : state.Sound) {size granularity thread logger : ℕ}
    {call : ℕ → LogWorker.Action}
    (hlive : ∀ fout, state.loggers logger = some fout → state.live fout = true)
    (hcall : ∀ fout worker, state.worker.step size granularity (call fout) = some worker →
      state.worker.callers thread = .idle ∧ worker.pending = state.worker.pending ∧
      ∃ pc, worker.callers = Function.update state.worker.callers thread pc ∧
        ∀ other, stream pc = some other → other = fout)
    (hstep : state.log size granularity thread logger call = some next) : next.Sound := by
  unfold State.log at hstep
  split at hstep
  · cases hstep
  next fout hfout =>
    obtain ⟨worker, hworker, rfl⟩ := Option.map_eq_some_iff.mp hstep
    obtain ⟨hidle, hpending, pc, hcallers, hstream⟩ := hcall fout worker hworker
    exact hsound.log hcallers hpending hidle hstream (hlive fout hfout)

theorem step (hsound : state.Sound) {size granularity : ℕ} {action : Action}
    (hkeeps : KeepsStreams state action)
    (hstep : state.step size granularity action = some next) : next.Sound := by
  cases action with
  | construct logger opens =>
      simp only [State.step] at hstep
      split at hstep
      · cases hstep
      · split at hstep
        all_goals
          obtain rfl := Option.some.inj hstep
          exact hsound.openStream _
  | newStream =>
      obtain rfl := Option.some.inj hstep
      exact hsound.openStream _
  | setOutStream logger fout =>
      simp only [State.step] at hstep
      split at hstep
      · cases hstep
      next old hold =>
        split at hstep
        · obtain ⟨deleted, hdelete, rfl⟩ := Option.map_eq_some_iff.mp hstep
          exact hsound.delete (hkeeps old hold) hdelete _
        · cases hstep
  | destroy logger =>
      simp only [State.step] at hstep
      split at hstep
      · cases hstep
      next old hold =>
        obtain ⟨deleted, hdelete, rfl⟩ := Option.map_eq_some_iff.mp hstep
        exact hsound.delete (hkeeps old hold) hdelete _
  | logString thread logger sz =>
      refine hsound.logCall hkeeps ?_ hstep
      intro fout worker hworker
      simp only [LogWorker.State.step] at hworker
      split_ifs at hworker with hidle hempty
      · obtain rfl := Option.some.inj hworker
        refine ⟨hidle, rfl, .idle, rfl, ?_⟩
        intro other hnone
        cases hnone
      · obtain rfl := Option.some.inj hworker
        exact ⟨hidle, rfl, .logAlloc fout, rfl, fun _ hsame => (Option.some.inj hsame).symm⟩
  | logFormat thread logger =>
      refine hsound.logCall hkeeps ?_ hstep
      intro fout worker hworker
      simp only [LogWorker.State.step] at hworker
      split_ifs at hworker with hidle
      obtain rfl := Option.some.inj hworker
      exact ⟨hidle, rfl, .logAlloc fout, rfl, fun _ hsame => (Option.some.inj hsame).symm⟩
  | flush thread =>
      obtain ⟨worker, hworker, rfl⟩ := Option.map_eq_some_iff.mp hstep
      simp only [LogWorker.State.step] at hworker
      split_ifs at hworker with hidle
      obtain rfl := Option.some.inj hworker
      refine hsound.quiet .flushPop rfl rfl ?_ ?_
      · intro fout hnone
        cases hnone
      · intro log hnone
        rw [hidle] at hnone
        cases hnone
  | advance thread =>
      simp only [State.step] at hstep
      split at hstep
      · obtain ⟨worker, hworker, rfl⟩ := Option.map_eq_some_iff.mp hstep
        exact hsound.advance hworker
      · cases hstep
  | turn fout good =>
      obtain rfl := Option.some.inj hstep
      exact ⟨hsound.carried, hsound.entryMeant, hsound.callMeant, hsound.reachesOwn,
        hsound.traced⟩

end State.Sound

/-- No entry outlives its stream if a stream is deleted only when nothing refers to it
and `Log` is called only on loggers whose stream exists. -/
theorem noneOutlives_of_keepsStreams {size granularity : ℕ} {state : State}
    (hreached : (machine size granularity).ReachedBy KeepsStreams state) :
    state.NoneOutlives := by
  have hsound : state.Sound := by
    apply hreached.invariant State.Sound
    · exact State.Sound.start size
    · intro before action after hsound hkeeps hstep
      exact hsound.step hkeeps hstep
  exact hsound.noneOutlives

/-- `KeepsStreams` for the actions that delete nothing. -/
def keepsWithoutDeleting (state : State) : Action → Bool
  | .setOutStream _ _ => false
  | .destroy _ => false
  | .logString _ logger _ => (state.loggers logger).all state.live
  | .logFormat _ logger => (state.loggers logger).all state.live
  | _ => true

theorem keepsStreams_of_keepsWithoutDeleting (state : State) (action : Action)
    (hkeeps : keepsWithoutDeleting state action = true) : KeepsStreams state action := by
  cases action with
  | setOutStream logger fout => cases hkeeps
  | destroy logger => cases hkeeps
  | logString thread logger sz =>
      intro fout hfout
      simpa [keepsWithoutDeleting, hfout] using hkeeps
  | logFormat thread logger =>
      intro fout hfout
      simpa [keepsWithoutDeleting, hfout] using hkeeps
  | _ => trivial

theorem reachedBy_keepsStreams {size granularity : ℕ} {state final : State}
    {schedule : List Action}
    (hreached : (machine size granularity).ReachedBy KeepsStreams state)
    (hadmits : (machine size granularity).Admits
      (fun before action => keepsWithoutDeleting before action = true) state schedule)
    (hrun : (machine size granularity).runFrom state schedule = some final) :
    (machine size granularity).ReachedBy KeepsStreams final :=
  hreached.runFrom (hadmits.mono keepsStreams_of_keepsWithoutDeleting) hrun

/-- A message is logged and flushed before `SetOutStream` replaces the stream. -/
def flushed : List Action :=
  [.construct 0 true, .logFormat 0 0, .advance 0, .advance 0, .advance 0, .flush 1,
    .advance 1, .advance 1, .advance 1, .advance 1, .advance 1, .newStream]

def loggedAgain : List Action :=
  [.logFormat 0 0, .advance 0, .advance 0, .advance 0]

theorem replaced_reached :
    ∃ state, (machine 2 256).ReachedBy KeepsStreams state ∧
      state.worker.pending = [⟨0, 2⟩] ∧ state.live 1 = false := by
  have hflushed : ∃ state, (machine 2 256).run flushed = some state ∧
      (∀ thread, state.worker.callers thread = .idle) ∧ state.worker.pending = [] ∧
      ∃ next, state.step 2 256 (.setOutStream 0 2) = some next ∧
        (machine 2 256).Admits (fun before action => keepsWithoutDeleting before action = true)
          next loggedAgain ∧
        ∃ final, (machine 2 256).runFrom next loggedAgain = some final ∧
          final.worker.pending = [⟨0, 2⟩] ∧ final.live 1 = false := by
    refine ⟨_, rfl, ?_, rfl, _, rfl, by decide, _, rfl, rfl, rfl⟩
    intro thread
    match thread with
    | 0 => rfl
    | 1 => rfl
    | _ + 2 => rfl
  obtain ⟨state, hrun, hidle, hpending, next, hstep, hadmits, final, hfinal, hfacts⟩ := hflushed
  have hstate : (machine 2 256).ReachedBy KeepsStreams state :=
    reachedBy_keepsStreams .start (by decide) hrun
  have hunused : KeepsStreams state (.setOutStream 0 2) := by
    intro fout _
    refine ⟨?_, ?_⟩
    · rw [hpending]
      exact fun _ hmem => absurd hmem List.not_mem_nil
    · intro thread
      rw [hidle thread]
      exact nofun
  exact ⟨final, reachedBy_keepsStreams (.step hstate hunused hstep) hadmits hfinal, hfacts⟩

theorem noneOutlives_replaced :
    ∃ state : State, state.worker.pending = [⟨0, 2⟩] ∧ state.live 1 = false ∧
      state.NoneOutlives := by
  obtain ⟨state, hreached, hpending, hdeleted⟩ := replaced_reached
  exact ⟨state, hpending, hdeleted, noneOutlives_of_keepsStreams hreached⟩

/-- A logger is destroyed while its message is in the queue. -/
def destroyedEarly : List Action :=
  [.construct 0 true, .logFormat 0 0, .advance 0, .advance 0, .advance 0, .destroy 0]

theorem destroyedEarly_outlives :
    ¬ ∀ state, (machine 64 256).Reachable state → state.NoneOutlives := by
  intro hclaim
  have hrun : ((machine 64 256).run destroyedEarly).map
      (fun state => (state.worker.pending, state.live 1)) = some ([⟨0, 1⟩], false) := by
    decide
  obtain ⟨state, hstate, hfacts⟩ := Option.map_eq_some_iff.mp hrun
  obtain ⟨hpending, hdeleted⟩ := Prod.mk.inj hfacts
  have hlive := (hclaim state (Machine.Reachable.runFrom .start hstate)).pendingLive ⟨0, 1⟩
    (by rw [hpending]; exact List.mem_singleton_self _)
  rw [hdeleted] at hlive
  cases hlive

end Logger
end BackEndFacility
