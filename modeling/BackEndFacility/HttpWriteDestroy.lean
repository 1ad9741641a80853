import BackEndFacility.HttpResponseStream

/-!
# The end of a client's buffers

`~HttpClient` destroys `writeBuffer_`, and `DestroyBuffer` frees what it finds in the free
lists.  `~HttpBufferList` does nothing, so what still waits in `pendingWrite_` is not
freed.
-/

namespace BackEndFacility
namespace WriteMemory

/-! ## `DestroyBuffer` -/

/-- The walk over one free list; no result when it reads or frees a buffer that it has
freed before. -/
def destroyList (mem : WriteMemory) : Nat → Option Nat → List Nat → Option (List Nat)
  | 0, _, _ => none
  | _ + 1, none, freed => some freed
  | fuel + 1, some cur, freed =>
      if cur ∈ freed then none else mem.destroyList fuel (mem.next cur) (freed ++ [cur])

def destroySlots (fuel : Nat) : List Nat → WriteMemory → List Nat →
    Option (List Nat × WriteMemory)
  | [], mem, freed => some (freed, mem)
  | i :: rest, mem, freed =>
      match mem.destroyList fuel (mem.freeBuffer.getD i none) freed with
      | none => none
      | some freed =>
          destroySlots fuel rest { mem with freeBuffer := mem.freeBuffer.set i none } freed

/-- A free list has no more buffers than there are. -/
def destroyBuffer (mem : WriteMemory) : Option (List Nat × WriteMemory) :=
  destroySlots (mem.allocated + 1) (List.range mem.numSlot) mem []

/-! ## What it frees -/

theorem destroyList_chained {mem : WriteMemory} {ref : Option Nat} {list : List Nat}
    (hchain : Chained mem.next ref list) {freed : List Nat} (hnodup : (freed ++ list).Nodup)
    {fuel : Nat} (hfuel : list.length < fuel) :
    mem.destroyList fuel ref freed = some (freed ++ list) := by
  induction list generalizing ref freed fuel with
  | nil =>
      obtain ⟨more, rfl⟩ := Nat.exists_eq_add_of_lt hfuel
      obtain rfl := hchain
      rw [List.append_nil]
      rfl
  | cons cur rest ih =>
      obtain ⟨rfl, hrest⟩ := hchain
      obtain ⟨more, rfl⟩ := Nat.exists_eq_add_of_lt hfuel
      have hfresh : cur ∉ freed := by
        intro hmem
        exact (List.nodup_append.mp hnodup).2.2 cur hmem cur List.mem_cons_self rfl
      rw [List.append_cons] at hnodup
      rw [destroyList, if_neg hfresh, ih hrest]
      · rw [List.append_assoc]
        rfl
      · simpa using hnodup
      · rw [List.length_cons]
        omega

theorem destroySlots_chained {fuel : Nat} {lists : Nat → List Nat} {slots : List Nat}
    {mem : WriteMemory} {freed : List Nat} (hslots : slots.Nodup)
    (hlength : ∀ i ∈ slots, i < mem.freeBuffer.length)
    (hchain : ∀ i ∈ slots, Chained mem.next (mem.freeBuffer.getD i none) (lists i))
    (hnodup : (freed ++ slots.flatMap lists).Nodup)
    (hfuel : ∀ i ∈ slots, (lists i).length < fuel) :
    ∃ next, destroySlots fuel slots mem freed = some (freed ++ slots.flatMap lists, next) ∧
      ∀ i, next.freeBuffer.getD i none =
        if i ∈ slots then none else mem.freeBuffer.getD i none := by
  induction slots generalizing mem freed with
  | nil => exact ⟨mem, by simp [destroySlots], by simp⟩
  | cons slot rest ih =>
      obtain ⟨hout, hrest⟩ := List.nodup_cons.mp hslots
      rw [List.flatMap_cons, ← List.append_assoc] at hnodup
      have hwalk := destroyList_chained (hchain slot List.mem_cons_self)
        (List.nodup_append.mp hnodup).1 (hfuel slot List.mem_cons_self)
      have hset : ∀ i, (mem.freeBuffer.set slot none).getD i none =
          if slot = i then none else mem.freeBuffer.getD i none := fun i =>
        Represents.getD_set mem.freeBuffer slot i none none (hlength slot List.mem_cons_self)
      have hlater : ∀ i ∈ rest,
          (mem.freeBuffer.set slot none).getD i none = mem.freeBuffer.getD i none := by
        intro i hmem
        have hne : slot ≠ i := fun heq => hout (heq ▸ hmem)
        rw [hset, if_neg hne]
      have hbounds : ∀ i ∈ rest, i < (mem.freeBuffer.set slot none).length := by
        intro i hmem
        rw [List.length_set]
        exact hlength i (List.mem_cons_of_mem slot hmem)
      have hchains : ∀ i ∈ rest,
          Chained mem.next ((mem.freeBuffer.set slot none).getD i none) (lists i) := by
        intro i hmem
        rw [hlater i hmem]
        exact hchain i (List.mem_cons_of_mem slot hmem)
      obtain ⟨next, hnext, hcleared⟩ := @ih { mem with freeBuffer := mem.freeBuffer.set slot none }
        (freed ++ lists slot) hrest hbounds hchains hnodup
        fun i hmem => hfuel i (List.mem_cons_of_mem slot hmem)
      refine ⟨next, ?_, ?_⟩
      · rw [destroySlots, hwalk]
        dsimp only
        rw [hnext, List.flatMap_cons, List.append_assoc]
      · intro i
        rw [hcleared, hset]
        by_cases heq : slot = i
        · simp [heq]
        · simp [heq, Ne.symm heq]

theorem flatMap_slots (pool : HttpWriteBuffer) :
    (List.range pool.freeBuffer.length).flatMap
        (fun i => (pool.freeBuffer.getD i []).map HttpBuffer.id) =
      pool.freeBuffer.flatten.map HttpBuffer.id := by
  have hslots : (List.range pool.freeBuffer.length).map (fun i => pool.freeBuffer.getD i []) =
      pool.freeBuffer := by
    apply List.ext_getElem
    · simp
    · intro i hleft hright
      rw [List.getElem_map, List.getElem_range]
      exact List.getD_eq_getElem _ _ hright
  conv_rhs => rw [← hslots]
  rw [List.map_flatten, List.map_map, List.flatMap_def]
  rfl

theorem length_getD_le_flatten (lists : List (List HttpBuffer)) (i : Nat) :
    (lists.getD i []).length ≤ lists.flatten.length := by
  by_cases hindex : i < lists.length
  · rw [List.getD_eq_getElem _ _ hindex]
    exact (List.sublist_flatten_of_mem (List.getElem_mem hindex)).length_le
  · rw [List.getD_eq_default _ _ (not_lt.mp hindex)]
    exact Nat.zero_le _

theorem Represents.destroyBuffer {mem : WriteMemory} {pool : HttpWriteBuffer}
    {pending : List HttpBuffer} (hrep : mem.Represents pool pending []) :
    ∃ next, mem.destroyBuffer = some (pool.freeBuffer.flatten.map HttpBuffer.id, next) ∧
      ∀ i, next.freeBuffer.getD i none = none := by
  have hnumSlot : mem.numSlot = pool.freeBuffer.length := by
    rw [hrep.numSlot, hrep.sound.numSlot, hrep.sound.slots]
  have hlength : mem.freeBuffer.length = pool.freeBuffer.length := by
    rw [hrep.slotCount, hrep.sound.slots]
  have hnodup := hrep.nodup
  rw [List.append_nil, List.map_append] at hnodup
  have hfuel : ∀ i, ((pool.freeBuffer.getD i []).map HttpBuffer.id).length <
      mem.allocated + 1 := by
    intro i
    have hall := hrep.once.length_eq
    rw [List.length_map, List.length_append, List.length_range] at hall
    have hslot := length_getD_le_flatten pool.freeBuffer i
    rw [List.length_map]
    omega
  have hbounds : ∀ i ∈ List.range mem.numSlot, i < mem.freeBuffer.length := by
    intro i hmem
    rw [hlength, ← hnumSlot]
    exact List.mem_range.mp hmem
  have hlists : ([] ++ (List.range mem.numSlot).flatMap
      fun i => (pool.freeBuffer.getD i []).map HttpBuffer.id).Nodup := by
    rw [List.nil_append, hnumSlot, flatMap_slots]
    exact (List.nodup_append.mp hnodup).2.1
  obtain ⟨next, hnext, hcleared⟩ := @destroySlots_chained (mem.allocated + 1)
    (fun i => (pool.freeBuffer.getD i []).map HttpBuffer.id) (List.range mem.numSlot) mem []
    List.nodup_range hbounds (fun i _ => hrep.slots i) hlists fun i _ => hfuel i
  rw [hnumSlot, flatMap_slots] at hnext
  refine ⟨next, ?_, ?_⟩
  · rw [WriteMemory.destroyBuffer, hnumSlot, hnext]
    rfl
  · intro i
    rw [hcleared]
    by_cases hmem : i ∈ List.range mem.numSlot
    · rw [if_pos hmem]
    · rw [if_neg hmem]
      rw [List.mem_range, hnumSlot, ← hlength] at hmem
      exact List.getD_eq_default _ _ (not_lt.mp hmem)

end WriteMemory

/-! ## Every run of a client -/

namespace Sender

variable {env : Environment} {garbage : Nat → Bytes} {sender : Sender}

/-- The destructor frees every buffer there is, once and without reading one it has freed,
except those that still wait; and once the connection has been closed none waits. -/
theorem destroyBuffer_frees (hreach : (sendMachine env garbage).Reachable sender) :
    (∃ freed waiting next, sender.memory.destroyBuffer = some (freed, next) ∧
      Chained sender.memory.next sender.memory.head waiting ∧
      (waiting ++ freed).Perm (List.range sender.memory.allocated) ∧
      ∀ i, next.freeBuffer.getD i none = none) ∧
    ∃ closed freed next, sender.resetClient = some closed ∧
      closed.memory.destroyBuffer = some (freed, next) ∧
      freed.Perm (List.range closed.memory.allocated) := by
  obtain ⟨session, hmirrors⟩ := exists_mirrored hreach
  obtain ⟨closed, hclosed, hreset⟩ := @Mirrors.resetClient env _ _ hmirrors
  obtain ⟨next, hnext, hcleared⟩ := hmirrors.memory.destroyBuffer
  obtain ⟨last, hlast, -⟩ := hreset.memory.destroyBuffer
  have hall := hmirrors.memory.once
  have hnone := hreset.memory.once
  rw [List.append_nil, List.map_append] at hall
  rw [List.append_nil, List.nil_append] at hnone
  exact ⟨⟨_, _, next, hnext, hmirrors.memory.queue, hall, hcleared⟩,
    closed, _, last, hclosed, hlast, hnone⟩

/-- Two responses wait when the client is destroyed. -/
theorem destroyBuffer_frees_fiveBytes :
    ∃ sender freed waiting next, (sendMachine fiveAtATime (fun _ => [])).run
        [.generate emptyResponse, .generate emptyResponse, .send] = some sender ∧
      sender.memory.destroyBuffer = some (freed, next) ∧
      (waiting ++ freed).Perm (List.range sender.memory.allocated) := by
  have hrun : ∃ sender, (sendMachine fiveAtATime (fun _ => [])).run
      [.generate emptyResponse, .generate emptyResponse, .send] = some sender := by
    apply Option.isSome_iff_exists.mp
    decide +kernel
  obtain ⟨sender, hsender⟩ := hrun
  obtain ⟨⟨freed, waiting, next, hnext, -, hall, -⟩, -⟩ :=
    destroyBuffer_frees (Machine.Reachable.runFrom .start hsender)
  exact ⟨sender, freed, waiting, next, hsender, hnext, hall⟩

end Sender
end BackEndFacility
