import BackEndFacility.AsynLogDelivery

/-!
# What a crash flush saves

`Flush(false)`, which the signal handler calls, writes every entry of the two
pending vectors straight to the file.  It does not touch the private buffer of
the log file, so a message that the logging thread has copied there is saved
only through its entry, which stays in the vector until the batch is cleared.
Its bytes are still those of the message unless its buffer has been recycled in
the same batch and written again.
-/

namespace BackEndFacility
namespace AsynLog

/-! ## The crash flush -/

/-- The marks in front of an entry of `m_pending_buff2` and of
`m_pending_buff1`: `(f2)` and `(f)`. -/
def mark2 : List UInt8 := [40, 102, 50, 41]

def mark1 : List UInt8 := [40, 102, 41]

/-- One of the two loops of `Flush`. -/
def flushRaw (content : ℕ → ℕ → UInt8) (mark : List UInt8) :
    List WriteResult → List LogMsg → List UInt8 →
      Option (List UInt8 × List WriteResult)
  | script, [], written => some (written, script)
  | script, msg :: rest, written =>
      if msg.len = 0 then flushRaw content mark script rest written
      else
        match LogFile.appendRaw script mark written with
        | none => none
        | some (written, script) =>
            match LogFile.appendRaw script (msg.read content) written with
            | none => none
            | some (written, script) =>
                flushRaw content mark script rest written

/-- What the file holds after `Flush(false)`.  The pointers `m_pb1` and `m_pb2`
are crossed after an odd number of swaps. -/
def State.flush (state : State) (crossed : Bool) (script : List WriteResult) :
    Option (List UInt8) :=
  let buff1 := if crossed then state.pb2 else state.pb1
  let buff2 := if crossed then state.pb1 else state.pb2
  match flushRaw state.pool.content mark2 script buff2
      state.logFile.written with
  | none => none
  | some (written, script) =>
      match flushRaw state.pool.content mark1 script buff1 written with
      | none => none
      | some (written, _) => some written

/-- Whatever short writes and interruptions it meets, the flush leaves every
message in the file whose `Append` has returned. -/
def State.Survives (state : State) (crossed : Bool) : Prop :=
  ∀ script file, LogFile.Reliable script →
    state.flush crossed script = some file →
      ∀ entry ∈ state.returned, entry.2 <:+: file

/-! ## What the flush relies on -/

/-- The entries that carry a message. -/
def posted (msgs : List LogMsg) : List LogMsg :=
  msgs.filter fun msg => msg.len ≠ 0

/-- The last entries, as many as make up `count` bytes. -/
def lastBytes (count : ℕ) : List LogMsg → List LogMsg
  | [] => []
  | msg :: rest =>
      if ((msg :: rest).map BufferSlice.len).sum ≤ count then msg :: rest
      else lastBytes count rest

/-- The messages of the batch that the logging thread is through with. -/
def State.processed (state : State) : List LogMsg :=
  match state.logger with
  | .writing i => posted (state.pb2.take i)
  | _ => []

/-- Those of them which are in the private buffer of the log file only. -/
def State.held (state : State) : List LogMsg :=
  lastBytes state.logFile.fileBuff.length state.processed

/-- No message is copied over one that is only in the private buffer. -/
def KeepsHeld (state : State) : Action → Prop
  | .produce thread _ =>
      ∀ msg buffer, (state.producers thread).pc = .write msg →
        (state.producers thread).item = some (some buffer) →
          ∀ slice ∈ state.held, slice.buffer = buffer →
            state.pool.used buffer + msg.length ≤ slice.offset ∨
              slice.offset + slice.len ≤ state.pool.used buffer
  | _ => True

instance decidableKeepsHeld (state : State) :
    ∀ action, Decidable (KeepsHeld state action)
  | .produce thread _ =>
      match hpc : (state.producers thread).pc,
          hitem : (state.producers thread).item with
      | .write msg, some (some buffer) =>
          decidable_of_iff
            (∀ slice ∈ state.held, slice.buffer = buffer →
              state.pool.used buffer + msg.length ≤ slice.offset ∨
                slice.offset + slice.len ≤ state.pool.used buffer)
            (by simp [KeepsHeld, hpc, hitem])
      | .write _, some none => isTrue (by simp [KeepsHeld, hitem])
      | .write _, none => isTrue (by simp [KeepsHeld, hitem])
      | .idle, _ => isTrue (by simp [KeepsHeld, hpc])
      | .firstBuff _, _ => isTrue (by simp [KeepsHeld, hpc])
      | .check _, _ => isTrue (by simp [KeepsHeld, hpc])
      | .pushRetired _, _ => isTrue (by simp [KeepsHeld, hpc])
      | .getBuff _, _ => isTrue (by simp [KeepsHeld, hpc])
      | .push _ _, _ => isTrue (by simp [KeepsHeld, hpc])
      | .exitPush, _ => isTrue (by simp [KeepsHeld, hpc])
      | .exited, _ => isTrue (by simp [KeepsHeld, hpc])
  | .append _ _ => isTrue trivial
  | .exit _ => isTrue trivial
  | .stop => isTrue trivial
  | .log _ _ _ => isTrue trivial

/-- Thread 0 logs `A` and exits.  While its message waits in the private buffer
its recycled buffer goes to thread 1, which logs `B`. -/
def recycledEarly : List Action :=
  [.append 0 [65], .produce 0 0, .produce 0 0, .produce 0 0, .produce 0 0,
    .exit 0, .produce 0 0,
    .log [] false false, .log [] false false, .log [] false false,
    .log [] false false,
    .append 1 [66], .produce 1 0, .produce 1 0, .produce 1 0, .produce 1 0]

theorem not_survives_recycledEarly :
    ¬ ∀ garbage state, (machine garbage).ReachedBy Assumed state →
      ∃ crossed, state.Survives crossed := by
  intro hall
  have hlost : ∃ state, (machine fun _ _ => 0).run recycledEarly = some state ∧
      state.returned = [(0, [65]), (1, [66])] ∧
      state.flush false [.wrote 4, .wrote 1, .wrote 3, .wrote 1] =
        some (mark2 ++ [66] ++ mark1 ++ [66]) ∧
      state.flush true [.wrote 4, .wrote 1, .wrote 3, .wrote 1] =
        some (mark2 ++ [66] ++ mark1 ++ [66]) :=
    ⟨_, rfl, rfl, rfl, rfl⟩
  obtain ⟨state, hrun, hreturned, hstraight, hcrossed⟩ := hlost
  have hreached : (machine fun _ _ => 0).ReachedBy Assumed state :=
    Machine.ReachedBy.runFrom .start (by decide +kernel) hrun
  obtain ⟨crossed, hsurvives⟩ := hall _ state hreached
  have hflush : state.flush crossed [.wrote 4, .wrote 1, .wrote 3, .wrote 1] =
      some (mark2 ++ [66] ++ mark1 ++ [66]) := by
    cases crossed with
    | false => exact hstraight
    | true => exact hcrossed
  have hreliable : LogFile.Reliable [.wrote 4, .wrote 1, .wrote 3, .wrote 1] := by
    simp [LogFile.Reliable]
  have hinside := hsurvives _ _ hreliable hflush (0, [65]) (by simp [hreturned])
  revert hinside
  decide

/-! ## What the flush writes -/

theorem flushRaw_written {content : ℕ → ℕ → UInt8} {mark : List UInt8}
    {script rest : List WriteResult} {msgs : List LogMsg}
    {before after : List UInt8} (hreliable : LogFile.Reliable script)
    (hrun : flushRaw content mark script msgs before = some (after, rest)) :
    LogFile.Reliable rest ∧
      after = before ++ (posted msgs).flatMap fun msg => mark ++ msg.read content := by
  induction msgs generalizing script before with
  | nil =>
      cases hrun
      exact ⟨hreliable, by simp [posted]⟩
  | cons msg msgs ih =>
      rw [flushRaw] at hrun
      by_cases hlen : msg.len = 0
      · rw [if_pos hlen] at hrun
        have hposted : posted (msg :: msgs) = posted msgs := by
          simp [posted, hlen]
        rw [hposted]
        exact ih hreliable hrun
      · rw [if_neg hlen] at hrun
        have hposted : posted (msg :: msgs) = msg :: posted msgs := by
          simp [posted, hlen]
        split at hrun
        · cases hrun
        next marked script₁ hmark =>
            split at hrun
            · cases hrun
            next copied script₂ hcopy =>
                have hreliable₁ := hreliable.rest (LogFile.appendRaw_rest hmark)
                have hreliable₂ := hreliable₁.rest (LogFile.appendRaw_rest hcopy)
                obtain ⟨hrest, hafter⟩ := ih hreliable₂ hrun
                refine ⟨hrest, ?_⟩
                rw [hafter, LogFile.appendRaw_written hreliable₁ hcopy,
                  LogFile.appendRaw_written hreliable hmark, hposted,
                  List.flatMap_cons]
                simp only [List.append_assoc]

theorem flushRaw_returns (content : ℕ → ℕ → UInt8) (mark : List UInt8)
    (msgs : List LogMsg) (before : List UInt8) :
    ∃ script after, LogFile.Reliable script ∧ ∀ rest,
      flushRaw content mark (script ++ rest) msgs before = some (after, rest) := by
  induction msgs generalizing before with
  | nil => exact ⟨[], before, by simp [LogFile.Reliable], fun rest => rfl⟩
  | cons msg msgs ih =>
      by_cases hlen : msg.len = 0
      · obtain ⟨script, after, hreliable, hrun⟩ := ih before
        refine ⟨script, after, hreliable, fun rest => ?_⟩
        rw [flushRaw, if_pos hlen]
        exact hrun rest
      · obtain ⟨first, hfirst, hmark⟩ := LogFile.appendRaw_whole mark before
        obtain ⟨second, hsecond, hcopy⟩ :=
          LogFile.appendRaw_whole (msg.read content) (before ++ mark)
        obtain ⟨third, after, hthird, hrun⟩ := ih (before ++ mark ++ msg.read content)
        refine ⟨first ++ (second ++ third), after, ?_, fun rest => ?_⟩
        · simp only [LogFile.Reliable, List.mem_append, not_or]
          exact ⟨hfirst, hsecond, hthird⟩
        · rw [flushRaw, if_neg hlen, List.append_assoc, List.append_assoc, hmark]
          simp only
          rw [hcopy]
          exact hrun rest

theorem State.flush_returns (state : State) (crossed : Bool) :
    ∃ script file, LogFile.Reliable script ∧
      state.flush crossed script = some file := by
  obtain ⟨first, middle, hfirst, hrun₂⟩ := flushRaw_returns state.pool.content mark2
    (if crossed then state.pb1 else state.pb2) state.logFile.written
  obtain ⟨second, file, hsecond, hrun₁⟩ := flushRaw_returns state.pool.content mark1
    (if crossed then state.pb2 else state.pb1) middle
  refine ⟨first ++ (second ++ []), file, ?_, ?_⟩
  · simp only [LogFile.Reliable, List.append_nil, List.mem_append, not_or]
    exact ⟨hfirst, hsecond⟩
  · unfold State.flush
    simp only
    rw [hrun₂]
    simp only
    rw [hrun₁]

/-- Every entry of the two vectors ends up in the file, and so does what was
written before. -/
theorem State.flush_saves {state : State} {crossed : Bool}
    {script : List WriteResult} {file : List UInt8}
    (hreliable : LogFile.Reliable script)
    (hflush : state.flush crossed script = some file) :
    state.logFile.written <:+: file ∧
      ∀ msg ∈ posted (state.pb1 ++ state.pb2),
        msg.read state.pool.content <:+: file := by
  unfold State.flush at hflush
  simp only at hflush
  split at hflush
  · cases hflush
  next middle rest hrun₂ =>
      split at hflush
      · cases hflush
      next whole rest' hrun₁ =>
          cases hflush
          obtain ⟨hrest, hmiddle⟩ := flushRaw_written hreliable hrun₂
          obtain ⟨-, hwhole⟩ := flushRaw_written hrest hrun₁
          have hchunk : ∀ (mark : List UInt8) (msgs : List LogMsg) (msg : LogMsg),
              msg ∈ posted msgs → msg.read state.pool.content <:+:
                (posted msgs).flatMap fun msg => mark ++ msg.read state.pool.content := by
            intro mark msgs msg hmsg
            have hinside : mark ++ msg.read state.pool.content <:+:
                (posted msgs).flatMap fun msg => mark ++ msg.read state.pool.content := by
              rw [List.flatMap_def]
              exact List.infix_of_mem_flatten (List.mem_map_of_mem hmsg)
            exact (List.suffix_append mark _).isInfix.trans hinside
          have hfirst : middle <:+: file := by
            rw [hwhole]
            exact (List.prefix_append _ _).isInfix
          have hsecond : ((posted (if crossed then state.pb2 else state.pb1)).flatMap
              fun msg => mark1 ++ msg.read state.pool.content) <:+: file := by
            rw [hwhole]
            exact (List.suffix_append _ _).isInfix
          refine ⟨?_, fun msg hmsg => ?_⟩
          · refine List.IsInfix.trans ?_ hfirst
            rw [hmiddle]
            exact (List.prefix_append _ _).isInfix
          · have hcases : msg ∈ posted (if crossed then state.pb1 else state.pb2) ∨
                msg ∈ posted (if crossed then state.pb2 else state.pb1) := by
              unfold posted at hmsg ⊢
              rw [List.filter_append, List.mem_append] at hmsg
              cases crossed with
              | false => exact hmsg.symm
              | true => exact hmsg
            rcases hcases with hin | hin
            · refine (hchunk mark2 _ msg hin).trans (List.IsInfix.trans ?_ hfirst)
              rw [hmiddle]
              exact (List.suffix_append _ _).isInfix
            · exact (hchunk mark1 _ msg hin).trans hsecond

/-! ## The invariant -/

theorem lastBytes_eq (front back : List LogMsg)
    (hlen : ∀ msg ∈ front ++ back, msg.len ≠ 0) :
    lastBytes (back.map BufferSlice.len).sum (front ++ back) = back := by
  induction front with
  | nil =>
      cases back with
      | nil => rfl
      | cons msg rest =>
          rw [List.nil_append, lastBytes, if_pos le_rfl]
  | cons msg front ih =>
      have hmsg : msg.len ≠ 0 := hlen msg (by simp)
      have hlong : ¬ ((msg :: (front ++ back)).map BufferSlice.len).sum ≤
          (back.map BufferSlice.len).sum := by
        simp only [List.map_cons, List.map_append, List.sum_cons, List.sum_append]
        omega
      rw [List.cons_append, lastBytes, if_neg hlong]
      exact ih fun later hlater => hlen later (List.mem_cons_of_mem msg hlater)

/-- The messages returned so far: those in the file, those in its private
buffer, whose entries are kept, and those still to be dealt with. -/
structure State.Saved (state : State) (done : List (List UInt8))
    (held : List LogMsg) : Prop where
  messages : state.returned.map Prod.snd =
    done ++ (held ++ posted state.remaining).map (BufferSlice.read state.pool.content)
  written : state.logFile.written = done.flatten
  buffered : state.logFile.fileBuff = held.flatMap (BufferSlice.read state.pool.content)
  kept : held <:+ state.processed
  old : ∀ msg ∈ held, msg.buffer < state.pool.next

theorem posted_append (first second : List LogMsg) :
    posted (first ++ second) = posted first ++ posted second :=
  List.filter_append ..

theorem mem_posted {msg : LogMsg} {msgs : List LogMsg} :
    msg ∈ posted msgs ↔ msg ∈ msgs ∧ msg.len ≠ 0 := by
  simp [posted]

namespace State.Saved

variable {state next : State} {done : List (List UInt8)} {held : List LogMsg}

theorem len_ne {msg : LogMsg} (hmsg : msg ∈ state.processed) : msg.len ≠ 0 := by
  unfold State.processed at hmsg
  cases hlogger : state.logger with
  | writing i =>
      rw [hlogger] at hmsg
      exact (mem_posted.mp hmsg).2
  | _ => simp [hlogger] at hmsg

theorem held_eq (hsaved : state.Saved done held) : state.held = held := by
  obtain ⟨front, hfront⟩ := hsaved.kept
  have hlength : state.logFile.fileBuff.length = (held.map BufferSlice.len).sum := by
    rw [hsaved.buffered, List.length_flatMap]
    congr 1
    apply List.map_congr_left
    intro msg _
    simp [BufferSlice.read]
  unfold State.held
  rw [hlength, ← hfront]
  refine lastBytes_eq front held fun msg hmsg => ?_
  have hprocessed : msg ∈ state.processed := by
    rw [← hfront]
    exact hmsg
  exact len_ne hprocessed

theorem survives (hsaved : state.Saved done held) (crossed : Bool) :
    state.Survives crossed := by
  intro script file hreliable hflush entry hentry
  obtain ⟨hwritten, hentries⟩ := state.flush_saves hreliable hflush
  have hsplit : entry.2 ∈ done ++
      (held ++ posted state.remaining).map (BufferSlice.read state.pool.content) := by
    rw [← hsaved.messages]
    exact List.mem_map_of_mem hentry
  rcases List.mem_append.mp hsplit with hdone | hpending
  · rw [hsaved.written] at hwritten
    exact (List.infix_of_mem_flatten hdone).trans hwritten
  · obtain ⟨msg, hmsg, hread⟩ := List.mem_map.mp hpending
    rw [← hread]
    refine hentries msg ?_
    rw [mem_posted, List.mem_append]
    rcases List.mem_append.mp hmsg with hheld | hremaining
    · have hprocessed : msg ∈ state.processed := hsaved.kept.subset hheld
      unfold State.processed at hprocessed
      cases hlogger : state.logger with
      | writing i =>
          rw [hlogger] at hprocessed
          obtain ⟨htaken, hlen⟩ := mem_posted.mp hprocessed
          exact ⟨.inr (List.mem_of_mem_take htaken), hlen⟩
      | _ => simp [hlogger] at hprocessed
    · obtain ⟨hleft, hlen⟩ := mem_posted.mp hremaining
      refine ⟨?_, hlen⟩
      unfold State.remaining at hleft
      cases hlogger : state.logger with
      | writing i =>
          rw [hlogger] at hleft
          rcases List.mem_append.mp hleft with hdropped | hfirst
          · exact .inr (List.mem_of_mem_drop hdropped)
          · exact .inl hfirst
      | _ =>
          rw [hlogger] at hleft
          exact .inl hleft

theorem produced (hsaved : state.Saved done held) (pushed : List LogMsg)
    (hlogFile : next.logFile = state.logFile)
    (hlogger : next.logger = state.logger)
    (hpb2 : next.pb2 = state.pb2)
    (hpb1 : next.pb1 = state.pb1 ++ pushed)
    (hnext : state.pool.next ≤ next.pool.next)
    (hread : ∀ msg ∈ held ++ posted state.remaining,
      msg.read next.pool.content = msg.read state.pool.content)
    (hreturned : next.returned.map Prod.snd = state.returned.map Prod.snd ++
      (posted pushed).map (BufferSlice.read next.pool.content)) :
    next.Saved done held := by
  have hremaining : next.remaining = state.remaining ++ pushed := by
    unfold State.remaining
    rw [hlogger, hpb1, hpb2]
    cases state.logger <;> simp
  have hsame : (held ++ posted state.remaining).map (BufferSlice.read next.pool.content) =
      (held ++ posted state.remaining).map (BufferSlice.read state.pool.content) :=
    List.map_congr_left hread
  constructor
  · rw [hreturned, hsaved.messages, hremaining, posted_append, ← hsame]
    simp only [List.map_append, List.append_assoc]
  · rw [hlogFile]
    exact hsaved.written
  · rw [hlogFile, hsaved.buffered]
    apply List.flatMap_congr
    intro msg hmsg
    exact (hread msg (List.mem_append_left _ hmsg)).symm
  · unfold State.processed
    rw [hlogger, hpb2]
    exact hsaved.kept
  · intro msg hmsg
    exact (hsaved.old msg hmsg).trans_le hnext

end State.Saved

/-! ## Steps of a producer -/

theorem FixedBufferPool.getBuff_grows (this : FixedBufferPool) (fresh : ℕ) :
    this.next ≤ (this.getBuff fresh).2.next ∧
      ∀ buffer < this.next,
        (this.getBuff fresh).2.memory buffer = this.memory buffer := by
  have hfull : this.next ≤ (if this.pool = [] then this.enlarge fresh else this).next ∧
      ∀ buffer < this.next,
        (if this.pool = [] then this.enlarge fresh else this).memory buffer =
          this.memory buffer := by
    split
    · unfold enlarge
      split
      · exact ⟨le_rfl, fun _ _ => rfl⟩
      · refine ⟨Nat.le_add_right _ _, fun buffer hold => ?_⟩
        simp only
        rw [if_neg (by omega)]
    · exact ⟨le_rfl, fun _ _ => rfl⟩
  unfold getBuff
  simp only
  split
  · exact hfull
  · exact hfull

namespace State.Saved

variable {state next : State} {done : List (List UInt8)} {held : List LogMsg}

theorem moveOn (hsaved : state.Saved done held)
    (hlogFile : next.logFile = state.logFile)
    (hlogger : next.logger = state.logger)
    (hpb2 : next.pb2 = state.pb2) (hpb1 : next.pb1 = state.pb1)
    (hpool : next.pool = state.pool) (hreturned : next.returned = state.returned) :
    next.Saved done held := by
  have hpushed : next.pb1 = state.pb1 ++ [] := by rw [hpb1, List.append_nil]
  refine hsaved.produced [] hlogFile hlogger hpb2 hpushed (by rw [hpool])
    (fun _ _ => by rw [hpool]) ?_
  rw [hreturned]
  simp [posted]

theorem getBuff (hinv : state.Invariant) (hsaved : state.Saved done held) {fresh : ℕ}
    (hlogFile : next.logFile = state.logFile)
    (hlogger : next.logger = state.logger)
    (hpb2 : next.pb2 = state.pb2) (hpb1 : next.pb1 = state.pb1)
    (hpool : next.pool = (state.pool.getBuff fresh).2)
    (hreturned : next.returned = state.returned) :
    next.Saved done held := by
  obtain ⟨hgrows, hmemory⟩ := state.pool.getBuff_grows fresh
  have hpushed : next.pb1 = state.pb1 ++ [] := by rw [hpb1, List.append_nil]
  refine hsaved.produced [] hlogFile hlogger hpb2 hpushed (by rw [hpool]; exact hgrows) ?_ ?_
  · intro msg hmsg
    have hold : msg.buffer < state.pool.next := by
      rcases List.mem_append.mp hmsg with hheld | hremaining
      · exact hsaved.old msg hheld
      · exact hinv.ledger.slicesOld msg (mem_posted.mp hremaining).1
    apply BufferSlice.read_congr
    intro i _
    unfold FixedBufferPool.content
    rw [hpool, hmemory msg.buffer hold]
  · rw [hreturned]
    simp [posted]

theorem retire (hsaved : state.Saved done held) {thread buffer : ℕ} {producer : Producer} :
    ((state.addToWriter (.retire buffer)).setProducer thread producer).Saved done held := by
  unfold State.addToWriter
  split
  · refine hsaved.produced [.retire buffer] rfl rfl rfl rfl le_rfl
      (fun _ _ => rfl) ?_
    simp [State.setProducer, posted, BufferSlice.retire]
  · exact hsaved.moveOn rfl rfl rfl rfl rfl rfl

theorem write (hinv : state.Invariant) (hsaved : state.Saved done held)
    {thread buffer fresh : ℕ} {msg : List UInt8} {producer : Producer}
    (hkeeps : KeepsHeld state (.produce thread fresh))
    (hpc : (state.producers thread).pc = .write msg)
    (hitem : (state.producers thread).item = some (some buffer)) :
    ({ state with pool := state.pool.write buffer msg }.setProducer thread
      producer).Saved done held := by
  refine hsaved.produced [] rfl rfl rfl (List.append_nil _).symm le_rfl ?_ ?_
  · intro slice hslice
    rcases List.mem_append.mp hslice with hheld | hremaining
    · refine state.pool.write_read_apart buffer msg fun _ heq => ?_
      have hmem : slice ∈ state.held := by
        rw [hsaved.held_eq]
        exact hheld
      exact hkeeps msg buffer hpc hitem slice hmem heq
    · obtain ⟨hmem, hlen⟩ := mem_posted.mp hremaining
      exact state.pool.write_read buffer msg (hinv.ledger.placed slice hmem)
  · simp [State.setProducer, posted]

theorem push (hinv : state.Invariant) (hsaved : state.Saved done held)
    {thread buffer offset : ℕ} {msg : List UInt8} {producer : Producer}
    (hpc : (state.producers thread).pc = .push msg offset)
    (hitem : (state.producers thread).item = some (some buffer))
    (hrunning : state.running = true) :
    ({ state.addToWriter ⟨msg.length, buffer, offset⟩ with
      returned := state.returned ++ [(thread, msg)] }.setProducer thread
        producer).Saved done held := by
  have hsound := hinv.sound thread
  unfold Producer.Sound at hsound
  simp only [hpc] at hsound
  obtain ⟨hread, -⟩ := hsound.2 buffer hitem
  have hlen : msg.length ≠ 0 := by
    simpa using hsound.1.1
  unfold State.addToWriter
  rw [if_pos hrunning]
  refine hsaved.produced [⟨msg.length, buffer, offset⟩] rfl rfl rfl rfl le_rfl
    (fun _ _ => rfl) ?_
  have hposted : posted [⟨msg.length, buffer, offset⟩] = [⟨msg.length, buffer, offset⟩] := by
    simp [posted, hsound.1.1]
  rw [hposted]
  simp only [State.setProducer, List.map_append, List.map_cons, List.map_nil, hread]

theorem produce (hinv : state.Invariant) (hsaved : state.Saved done held)
    {thread fresh : ℕ} (hkeeps : KeepsHeld state (.produce thread fresh))
    (hstep : state.produce thread fresh = some next) :
    next.Saved done held := by
  have hstay : { state with aborted := true }.Saved done held :=
    hsaved.moveOn rfl rfl rfl rfl rfl rfl
  unfold State.produce at hstep
  cases hpc : (state.producers thread).pc with
  | idle => simp [hpc] at hstep
  | firstBuff msg =>
      simp only [hpc, Option.some.injEq] at hstep
      subst hstep
      exact hsaved.getBuff hinv rfl rfl rfl rfl rfl rfl
  | check msg =>
      simp only [hpc] at hstep
      split at hstep
      · split at hstep
        all_goals
          cases hstep
          exact hsaved.moveOn rfl rfl rfl rfl rfl rfl
      · cases hstep
        exact hsaved.moveOn rfl rfl rfl rfl rfl rfl
  | pushRetired msg =>
      simp only [hpc] at hstep
      split at hstep
      · cases hstep
        exact hsaved.retire
      · cases hstep
        exact hstay
  | getBuff msg =>
      simp only [hpc] at hstep
      split at hstep
      all_goals
        cases hstep
        exact hsaved.getBuff hinv rfl rfl rfl rfl rfl rfl
  | write msg =>
      simp only [hpc] at hstep
      split at hstep
      next buffer hitem =>
          split at hstep
          · cases hstep
            exact hsaved.write hinv hkeeps hpc hitem
          · cases hstep
            exact hsaved.moveOn rfl rfl rfl rfl rfl rfl
      next =>
          cases hstep
          exact hstay
  | push msg offset =>
      simp only [hpc] at hstep
      split at hstep
      next buffer hitem =>
          split at hstep
          next hrunning =>
              cases hstep
              exact hsaved.push hinv hpc hitem hrunning
          next hstopped =>
              cases hstep
              unfold State.addToWriter
              rw [if_neg hstopped]
              exact hstay
      next =>
          cases hstep
          exact hstay
  | exitPush =>
      simp only [hpc] at hstep
      split at hstep
      · cases hstep
        exact hsaved.retire
      · cases hstep
        exact hstay
  | exited => simp [hpc] at hstep

end State.Saved

/-! ## Steps of the logging thread -/

namespace State.Saved

variable {state next : State} {done : List (List UInt8)} {held : List LogMsg}

theorem held_of_not_writing (hsaved : state.Saved done held)
    (hidle : ∀ i, state.logger ≠ .writing i) : held = [] := by
  have hkept := hsaved.kept
  unfold State.processed at hkept
  cases hlogger : state.logger with
  | writing i => exact absurd hlogger (hidle i)
  | _ =>
      rw [hlogger] at hkept
      exact List.suffix_nil.mp hkept

/-- The logging thread moves on while it holds nothing. -/
theorem relocate (hsaved : state.Saved done []) {content : ℕ → ℕ → UInt8}
    (hcontent : next.pool.content = content) (hsame : state.pool.content = content)
    (hlogFile : next.logFile = state.logFile)
    (hreturned : next.returned = state.returned)
    (hremaining : next.remaining = state.remaining) :
    next.Saved done [] := by
  constructor
  · rw [hreturned, hremaining, hcontent, ← hsame]
    exact hsaved.messages
  · rw [hlogFile]
    exact hsaved.written
  · rw [hlogFile, hsaved.buffered]
    rfl
  · exact List.nil_suffix
  · intro msg hmsg
    cases hmsg

theorem swapOrLeave (hinv : state.Invariant) (hsaved : state.Saved done [])
    (hresting : state.logger.Resting) (hidle : ∀ i, state.logger ≠ .writing i) :
    state.swapOrLeave.Saved done [] := by
  have hremaining := State.remaining_of_not_writing hidle
  unfold State.swapOrLeave
  split
  · exact hsaved.relocate rfl rfl rfl rfl hremaining.symm
  · have hempty := hinv.cleared hresting
    refine hsaved.relocate rfl rfl rfl rfl ?_
    rw [hremaining]
    simp [State.remaining, hempty]

theorem shrinkMemoryUsage (hsaved : state.Saved done [])
    (hidle : ∀ i, state.logger ≠ .writing i) (hempty : state.pb1 = [])
    (grown1 grown2 : Bool) :
    (state.shrinkMemoryUsage grown1 grown2).Saved done [] := by
  have hcontent : state.pool.shrink.content = state.pool.content := by
    unfold FixedBufferPool.shrink
    split <;> rfl
  have hremaining : (state.shrinkMemoryUsage grown1 grown2).remaining = state.remaining := by
    rw [State.remaining_of_not_writing hidle,
      State.remaining_of_not_writing
        (show ∀ i, (state.shrinkMemoryUsage grown1 grown2).logger ≠ .writing i from hidle)]
    simp [State.shrinkMemoryUsage, hempty]
  exact hsaved.relocate hcontent rfl rfl rfl hremaining

theorem processed_next {i : ℕ} {msg : LogMsg} (hlogger : state.logger = .writing i)
    (hmsg : state.pb2[i]? = some msg) :
    { state with logger := .writing (i + 1) }.processed = state.processed ++ posted [msg] := by
  obtain ⟨hlt, hget⟩ := List.getElem?_eq_some_iff.mp hmsg
  unfold State.processed
  simp only [hlogger]
  rw [List.take_succ_eq_append_getElem hlt, hget, posted_append]

theorem recycle (hsaved : state.Saved done held) {i : ℕ} {msg : LogMsg}
    (hlogger : state.logger = .writing i) (hmsg : state.pb2[i]? = some msg)
    (hzero : msg.len = 0) :
    { state with
      pool := state.pool.recycle msg.buffer
      logger := .writing (i + 1) }.Saved done held := by
  have hremaining := State.remaining_writing hlogger hmsg
  have hposted : posted state.remaining =
      posted { state with logger := .writing (i + 1) }.remaining := by
    rw [hremaining]
    simp [posted, hzero]
  have hprocessed := processed_next hlogger hmsg
  have hmessages := hsaved.messages
  rw [hposted, ← state.pool.recycle_content msg.buffer] at hmessages
  refine ⟨hmessages, hsaved.written, ?_, ?_, hsaved.old⟩
  · rw [state.pool.recycle_content msg.buffer]
    exact hsaved.buffered
  · have hnothing : posted [msg] = [] := by simp [posted, hzero]
    rw [hnothing, List.append_nil] at hprocessed
    show held <:+ { state with logger := .writing (i + 1) }.processed
    rw [hprocessed]
    exact hsaved.kept

theorem flushed (hsaved : state.Saved done held) {script rest : List WriteResult}
    {logFile : LogFile} (hreliable : LogFile.Reliable script)
    (hflush : state.logFile.flush script = some (logFile, rest)) :
    logFile.fileBuff = [] ∧
      logFile.written =
        (done ++ held.map (BufferSlice.read state.pool.content)).flatten := by
  obtain ⟨hcontents, hbuff⟩ := LogFile.flush_contents hreliable hflush
  refine ⟨hbuff, ?_⟩
  unfold LogFile.contents at hcontents
  rw [hbuff, List.append_nil] at hcontents
  rw [hcontents, hsaved.written, hsaved.buffered, List.flatten_append, List.flatMap_def]

theorem append (hinv : state.Invariant) (hsaved : state.Saved done held) {i : ℕ}
    {msg : LogMsg} {script rest : List WriteResult} {logFile : LogFile}
    (hlogger : state.logger = .writing i) (hmsg : state.pb2[i]? = some msg)
    (hlen : msg.len ≠ 0) (hreliable : LogFile.Reliable script)
    (happend : state.logFile.append script (msg.read state.pool.content) =
      some (logFile, rest)) :
    ∃ done held, { state with
      logFile := logFile
      logger := .writing (i + 1) }.Saved done held := by
  have hremaining := State.remaining_writing hlogger hmsg
  have hprocessed := processed_next hlogger hmsg
  have hlone : posted [msg] = [msg] := by simp [posted, hlen]
  rw [hlone] at hprocessed
  have hposted : posted state.remaining =
      msg :: posted { state with logger := .writing (i + 1) }.remaining := by
    rw [hremaining]
    simp [posted, hlen]
  have hmessages := hsaved.messages
  rw [hposted] at hmessages
  have hold : msg.buffer < state.pool.next := by
    refine hinv.ledger.slicesOld msg ?_
    rw [hremaining]
    exact List.mem_cons_self
  unfold LogFile.append at happend
  split at happend
  · split at happend
    · cases happend
    next flushed left hflush =>
        cases happend
        obtain ⟨hbuff, hwritten⟩ := hsaved.flushed hreliable hflush
        refine ⟨done ++ held.map (BufferSlice.read state.pool.content), [msg],
          ?_, hwritten, ?_, ?_, ?_⟩
        · rw [hmessages]
          simp only [List.map_append, List.map_cons, List.append_assoc,
            List.singleton_append]
          rfl
        · simp [hbuff]
        · show [msg] <:+ { state with logger := .writing (i + 1) }.processed
          rw [hprocessed]
          exact List.suffix_append _ _
        · intro found hfound
          rw [List.mem_singleton.mp hfound]
          exact hold
  · cases happend
    refine ⟨done, held ++ [msg], ?_, hsaved.written, ?_, ?_, ?_⟩
    · rw [hmessages]
      simp only [List.append_assoc, List.singleton_append]
      rfl
    · rw [hsaved.buffered]
      simp
    · show held ++ [msg] <:+ { state with logger := .writing (i + 1) }.processed
      rw [hprocessed]
      obtain ⟨front, hfront⟩ := hsaved.kept
      exact ⟨front, by rw [← hfront, List.append_assoc]⟩
    · intro found hfound
      rcases List.mem_append.mp hfound with hheld | hnew
      · exact hsaved.old found hheld
      · rw [List.mem_singleton.mp hnew]
        exact hold

theorem flush (hsaved : state.Saved done held) {i : ℕ} {script rest : List WriteResult}
    {logFile : LogFile} (hlogger : state.logger = .writing i)
    (hend : state.pb2[i]? = none) (hreliable : LogFile.Reliable script)
    (hflush : state.logFile.flush script = some (logFile, rest)) :
    { state with logFile := logFile, logger := .clearing }.Saved
      (done ++ held.map (BufferSlice.read state.pool.content)) [] := by
  obtain ⟨hbuff, hwritten⟩ := hsaved.flushed hreliable hflush
  have hremaining : state.remaining = state.pb1 := by
    unfold State.remaining
    simp only [hlogger]
    rw [List.drop_eq_nil_of_le (List.getElem?_eq_none_iff.mp hend), List.nil_append]
  have hmessages := hsaved.messages
  rw [hremaining, List.map_append, ← List.append_assoc] at hmessages
  exact ⟨hmessages, hwritten, hbuff, List.nil_suffix, by simp⟩

theorem log (hinv : state.Invariant) (hsaved : state.Saved done held)
    {script : List WriteResult} {grown1 grown2 : Bool}
    (hreliable : LogFile.Reliable script)
    (hstep : state.log script grown1 grown2 = some next) :
    ∃ done held, next.Saved done held := by
  unfold State.log at hstep
  cases hlogger : state.logger with
  | top =>
      have hresting : state.logger.Resting := by rw [hlogger]; trivial
      have hidle : ∀ i, state.logger ≠ .writing i := by simp [hlogger]
      obtain rfl := hsaved.held_of_not_writing hidle
      simp only [hlogger] at hstep
      split at hstep
      · cases hstep
        exact ⟨done, [], hsaved.relocate rfl rfl rfl rfl
          (State.remaining_of_not_writing hidle).symm⟩
      · cases hstep
        exact ⟨done, [], hsaved.swapOrLeave hinv hresting hidle⟩
  | waiting idle =>
      have hresting : state.logger.Resting := by rw [hlogger]; trivial
      have hidle : ∀ i, state.logger ≠ .writing i := by simp [hlogger]
      obtain rfl := hsaved.held_of_not_writing hidle
      simp only [hlogger] at hstep
      split at hstep
      next hempty =>
          have hshrunk : ∃ shrunk : State,
              shrunk = (if idle + 1 = 8 then
                state.shrinkMemoryUsage grown1 grown2 else state) ∧
              shrunk.Saved done [] ∧ shrunk.Invariant ∧ shrunk.logger = state.logger := by
            refine ⟨_, rfl, ?_⟩
            have hnone : state.pb1 = [] := List.isEmpty_iff.mp hempty
            split
            · exact ⟨hsaved.shrinkMemoryUsage hidle hnone grown1 grown2,
                hinv.shrinkMemoryUsage hresting hnone grown1 grown2, rfl⟩
            · exact ⟨hsaved, hinv, rfl⟩
          obtain ⟨shrunk, heq, hafter, hinvAfter, hsame⟩ := hshrunk
          rw [← heq] at hstep
          rw [← hsame] at hresting hidle
          split at hstep
          · cases hstep
            exact ⟨done, [], hafter.relocate rfl rfl rfl rfl
              (State.remaining_of_not_writing hidle).symm⟩
          · cases hstep
            exact ⟨done, [], hafter.swapOrLeave hinvAfter hresting hidle⟩
      next =>
          cases hstep
          exact ⟨done, [], hsaved.swapOrLeave hinv hresting hidle⟩
  | writing i =>
      simp only [hlogger] at hstep
      split at hstep
      next hend =>
          split at hstep
          · cases hstep
          next logFile rest hflush =>
              cases hstep
              exact ⟨_, [], hsaved.flush hlogger hend hreliable hflush⟩
      next msg hmsg =>
          split at hstep
          next hzero =>
              cases hstep
              exact ⟨done, held, hsaved.recycle hlogger hmsg hzero⟩
          next hlen =>
              split at hstep
              · cases hstep
                rw [← hlogger]
                exact ⟨done, held, hsaved.moveOn rfl rfl rfl rfl rfl rfl⟩
              · split at hstep
                · cases hstep
                next logFile rest happend =>
                    cases hstep
                    exact hsaved.append hinv hlogger hmsg hlen hreliable happend
  | clearing =>
      have hidle : ∀ i, state.logger ≠ .writing i := by simp [hlogger]
      obtain rfl := hsaved.held_of_not_writing hidle
      simp only [hlogger, Option.some.injEq] at hstep
      subst hstep
      exact ⟨done, [], hsaved.relocate rfl rfl rfl rfl
        (State.remaining_of_not_writing hidle).symm⟩
  | terminated => simp [hlogger] at hstep

/-! ## Whole runs -/

theorem step (hinv : state.Invariant) (hsaved : state.Saved done held) {action : Action}
    (hassumed : Assumed state action) (hkeeps : KeepsHeld state action)
    (hstep : state.step action = some next) :
    ∃ done held, next.Saved done held := by
  unfold State.step at hstep
  split at hstep
  · cases hstep
  cases action with
  | append thread msg =>
      simp only at hstep
      repeat' split at hstep
      all_goals
        cases hstep
        try exact ⟨done, held, hsaved.moveOn rfl rfl rfl rfl rfl rfl⟩
  | produce thread fresh => exact ⟨done, held, hsaved.produce hinv hkeeps hstep⟩
  | exit thread =>
      simp only at hstep
      repeat' split at hstep
      all_goals
        cases hstep
        try exact ⟨done, held, hsaved.moveOn rfl rfl rfl rfl rfl rfl⟩
  | stop =>
      simp only at hstep
      split at hstep
      · cases hstep
        exact ⟨done, held, hsaved.moveOn rfl rfl rfl rfl rfl rfl⟩
      · cases hstep
  | log script grown1 grown2 => exact hsaved.log hinv hassumed hstep

end State.Saved

/-- In every run in which no message is copied over one that is only in the
private buffer, a crash flush saves all messages. -/
theorem survives_of_keepsHeld (garbage : ℕ → ℕ → UInt8) {state : State}
    (hreached : (machine garbage).ReachedBy
      (fun state action => Assumed state action ∧ KeepsHeld state action) state)
    (crossed : Bool) :
    state.Survives crossed ∧
      ∃ script file, LogFile.Reliable script ∧ state.flush crossed script = some file := by
  have hstart : (start garbage).Saved [] [] :=
    ⟨rfl, rfl, rfl, List.nil_suffix, by simp⟩
  have hkept : state.Invariant ∧ ∃ done held, state.Saved done held := by
    refine hreached.invariant
      (fun state : State => state.Invariant ∧ ∃ done held, state.Saved done held)
      ⟨start_invariant garbage, [], [], hstart⟩ ?_
    rintro state action next ⟨hinv, done, held, hsaved⟩ ⟨hassumed, hkeeps⟩ hstep
    exact ⟨hinv.step hassumed hstep, hsaved.step hinv hassumed hkeeps hstep⟩
  obtain ⟨-, done, held, hsaved⟩ := hkept
  exact ⟨hsaved.survives crossed, state.flush_returns crossed⟩

/-- Thread 0 logs `A`, which waits in the private buffer while thread 1 logs
`B` into a buffer of its own. -/
def heldUntouched : List Action :=
  [.append 0 [65], .produce 0 0, .produce 0 0, .produce 0 0, .produce 0 0,
    .log [] false false, .log [] false false, .log [] false false,
    .append 1 [66], .produce 1 0, .produce 1 0, .produce 1 0, .produce 1 0]

theorem survives_heldUntouched :
    ∃ state, (machine fun _ _ => 0).run heldUntouched = some state ∧
      state.logFile = ⟨[], [65]⟩ ∧ state.returned = [(0, [65]), (1, [66])] ∧
        state.Survives true ∧
          ∃ script file, LogFile.Reliable script ∧ state.flush true script = some file := by
  have hreached : ∀ state,
      (machine fun _ _ => 0).run heldUntouched = some state →
        (machine fun _ _ => 0).ReachedBy
          (fun state action => Assumed state action ∧ KeepsHeld state action) state := by
    intro state hrun
    exact Machine.ReachedBy.runFrom .start (by decide +kernel) hrun
  exact ⟨_, rfl, rfl, rfl, survives_of_keepsHeld (fun _ _ => 0) (hreached _ rfl) true⟩

end AsynLog
end BackEndFacility
