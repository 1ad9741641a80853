import BackEndFacility.SocketTable

/-!
# From addresses to descriptors

`AllocSocketFd` goes through the addresses of a host, opens a socket for each, and closes
it again when it can neither connect nor listen.  `ConnectTo` and `ListenTo` run it before
they touch the table, and any number of threads may be inside it.

Each system call is one step.  Its answer comes with the step, and so does the list that
`getaddrinfo` returns.  `freeaddrinfo` is left out.
-/

namespace BackEndFacility
namespace SocketServer
namespace SocketAddresses

open SocketTable (openFd closeFds unused OwnNumber Kept Consistent)

/-! ## The loop -/

inductive ConnectResult where
  | done
  | inProgress
  | failed
  deriving DecidableEq, Repr

/-- What the system answers to the next step of a thread. -/
structure Answer where
  socket : Option ℕ
  connect : ConnectResult
  setsockopt : Bool
  bind : Bool
  listen : Bool
  added : Bool
  deriving DecidableEq, Repr

def tryConnectTo (answer : Answer) : ℤ :=
  match answer.connect with
  | .failed => -1
  | .done => 1
  | .inProgress => 2

def tryListenTo (answer : Answer) : ℤ :=
  if answer.setsockopt = false then -1
  else if answer.bind = false then -1
  else if answer.listen = false then -1
  else 1

inductive SocketPredicateProc where
  | tryConnectTo
  | tryListenTo
  deriving DecidableEq, Repr

namespace SocketPredicateProc

def apply : SocketPredicateProc → Answer → ℤ
  | .tryConnectTo, answer => SocketAddresses.tryConnectTo answer
  | .tryListenTo, answer => SocketAddresses.tryListenTo answer

/-- What `ConnectTo` and `ListenTo` do with the socket they are given. -/
def call (proc : SocketPredicateProc) (sock : ℕ) (stat : ℤ) (opaqueValue : ℕ) (added : Bool) :
    Call :=
  match proc with
  | .tryConnectTo => .connectTo (some (sock, decide (stat = 1))) opaqueValue added
  | .tryListenTo => .listenTo (some sock) opaqueValue added

end SocketPredicateProc

/-- The next step of a thread; the addresses are those still to come. -/
inductive Place where
  | socket (addresses : List ℕ)
  | proc (sock : ℕ) (addresses : List ℕ)
  | close (sock : ℕ) (addresses : List ℕ)
  | found (sock : ℕ) (stat : ℤ)
  deriving DecidableEq, Repr

structure Search where
  proc : SocketPredicateProc
  opaqueValue : ℕ
  place : Place
  deriving DecidableEq, Repr

structure State where
  table : SocketTable.State
  searches : ℕ → Option Search

/-- `ConnectTo` and `ListenTo` begin; `list` is the result of `getaddrinfo`. -/
inductive Action where
  | table (action : SocketTable.Action)
  | enter (thread : ℕ) (proc : SocketPredicateProc) (list : Option (List ℕ)) (opaqueValue : ℕ)
  | advance (thread : ℕ) (answer : Answer)
  deriving DecidableEq, Repr

namespace State

def setSearch (state : State) (thread : ℕ) (search : Option Search) : State :=
  { state with searches := Function.update state.searches thread search }

def goto (state : State) (thread : ℕ) (search : Search) (place : Place) : State :=
  state.setSearch thread (some { search with place := place })

def setOpened (state : State) (opened : ℕ → Bool) : State :=
  { state with table := { state.table with opened := opened } }

def advance (state : State) (thread : ℕ) (answer : Answer) (search : Search) : Option State :=
  match search.place with
  | .socket [] => some (state.setSearch thread none)
  | .socket (_ :: addresses) =>
      match answer.socket with
      | none => some (state.goto thread search (.socket addresses))
      | some sock =>
          if unused state.table.opened (some sock) then
            some ((state.setOpened (openFd state.table.opened (some sock))).goto thread search
              (.proc sock addresses))
          else none
  | .proc sock addresses =>
      if 0 < search.proc.apply answer then
        some (state.goto thread search (.found sock (search.proc.apply answer)))
      else some (state.goto thread search (.close sock addresses))
  | .close sock addresses =>
      some ((state.setOpened (closeFds state.table.opened [sock])).goto thread search
        (.socket addresses))
  | .found sock stat =>
      some ({ state with
        table := state.table.perform
          (search.proc.call sock stat search.opaqueValue answer.added) }.setSearch thread none)

def step (state : State) (action : Action) : Option State :=
  if state.table.fault = none then
    match action with
    | .table (.call (.connectTo _ _ _)) => none
    | .table (.call (.listenTo _ _ _)) => none
    | .table action => (state.table.step action).map fun table => { state with table := table }
    | .enter thread proc list opaqueValue =>
        match state.searches thread with
        | none =>
            some (state.setSearch thread
              (some ⟨proc, opaqueValue, .socket (list.getD [])⟩))
        | some _ => none
    | .advance thread answer =>
        match state.searches thread with
        | none => none
        | some search => state.advance thread answer search
  else none

end State

def machine (maxSocket : ℕ) (unset : ℕ → ℕ × ℕ) (opened : ℕ → Bool) : Machine State Action where
  start := ⟨⟨.construct maxSocket unset, opened, none⟩, fun _ => none⟩
  step := State.step

/-! ## The sockets of the threads -/

def Place.sock : Place → Option ℕ
  | .socket _ => none
  | .proc sock _ => some sock
  | .close sock _ => some sock
  | .found sock _ => some sock

def State.held (state : State) (thread : ℕ) : Option ℕ :=
  (state.searches thread).bind fun search => search.place.sock

/-- What is open is what is visible and, apart from it, what each of the threads holds. -/
structure Covers (held : ℕ → Option ℕ) (opened visible : ℕ → Bool) : Prop where
  opened : ∀ fd, opened fd = true ↔ visible fd = true ∨ ∃ thread, held thread = some fd
  hidden : ∀ thread fd, held thread = some fd → visible fd = false
  once : ∀ thread other fd, held thread = some fd → held other = some fd → thread = other

theorem closeFds_apply (opened : ℕ → Bool) (fds : List ℕ) (fd : ℕ) :
    closeFds opened fds fd = true ↔ opened fd = true ∧ fd ∉ fds := by
  unfold closeFds
  induction fds generalizing opened with
  | nil => simp
  | cons first rest ih =>
      rw [List.foldl_cons, ih, List.mem_cons]
      by_cases heq : fd = first
      · simp [heq]
      · simp [heq]

theorem openFd_apply (opened : ℕ → Bool) (sock : Option ℕ) (fd : ℕ) :
    openFd opened sock fd = true ↔ opened fd = true ∨ sock = some fd := by
  cases sock with
  | none => simp [openFd]
  | some first =>
      by_cases heq : fd = first
      · simp [openFd, heq]
      · simp [openFd, heq, Ne.symm heq]

namespace Covers

variable {held : ℕ → Option ℕ} {opened visible : ℕ → Bool} {thread sock : ℕ}

theorem update_none {other fd : ℕ} (hheld : Function.update held thread none other = some fd) :
    other ≠ thread ∧ held other = some fd := by
  by_cases heq : other = thread
  · subst heq
    rw [Function.update_self] at hheld
    cases hheld
  · rw [Function.update_of_ne heq] at hheld
    exact ⟨heq, hheld⟩

theorem unused (hcovers : Covers held opened visible) {fd : Option ℕ}
    (hunused : unused opened fd = true) : SocketTable.unused visible fd = true := by
  cases fd with
  | none => rfl
  | some fd =>
      simp only [SocketTable.unused, Bool.not_eq_true', ← Bool.not_eq_true] at hunused ⊢
      exact fun hvisible => hunused ((hcovers.opened fd).mpr (.inl hvisible))

theorem unheld (hcovers : Covers held opened visible) {fd : ℕ}
    (hunused : SocketTable.unused opened (some fd) = true) (thread : ℕ) :
    held thread ≠ some fd := by
  intro hheld
  simp only [SocketTable.unused, Bool.not_eq_true', ← Bool.not_eq_true] at hunused
  exact hunused ((hcovers.opened fd).mpr (.inr ⟨thread, hheld⟩))

theorem openFd (hcovers : Covers held opened visible) {fd : Option ℕ}
    (hunused : SocketTable.unused opened fd = true) :
    Covers held (openFd opened fd) (SocketTable.openFd visible fd) where
  opened := by
    intro other
    rw [openFd_apply, openFd_apply, hcovers.opened]
    tauto
  hidden := by
    intro thread other hheld
    rw [← Bool.not_eq_true, openFd_apply]
    rintro (hvisible | rfl)
    · rw [hcovers.hidden thread other hheld] at hvisible
      cases hvisible
    · exact hcovers.unheld hunused thread hheld
  once := hcovers.once

theorem closeFds (hcovers : Covers held opened visible) {fds : List ℕ}
    (hunheld : ∀ thread, ∀ fd ∈ fds, held thread ≠ some fd) :
    Covers held (closeFds opened fds) (SocketTable.closeFds visible fds) where
  opened := by
    intro fd
    rw [closeFds_apply, closeFds_apply, hcovers.opened]
    constructor
    · rintro ⟨hvisible | hheld, hout⟩
      · exact .inl ⟨hvisible, hout⟩
      · exact .inr hheld
    · rintro (⟨hvisible, hout⟩ | ⟨thread, hheld⟩)
      · exact ⟨.inl hvisible, hout⟩
      · exact ⟨.inr ⟨thread, hheld⟩, fun hmem => hunheld thread fd hmem hheld⟩
  hidden := by
    intro thread fd hheld
    rw [← Bool.not_eq_true, closeFds_apply, hcovers.hidden thread fd hheld]
    simp
  once := hcovers.once

theorem take (hcovers : Covers held opened visible) (hheld : held thread = none)
    (hunused : SocketTable.unused opened (some sock) = true) :
    Covers (Function.update held thread (some sock)) (SocketTable.openFd opened (some sock))
      visible := by
  have hunseen := hcovers.unused hunused
  simp only [SocketTable.unused, Bool.not_eq_true'] at hunseen
  have hcases : ∀ other fd, Function.update held thread (some sock) other = some fd →
      other = thread ∧ fd = sock ∨ other ≠ thread ∧ held other = some fd := by
    intro other fd hother
    by_cases heq : other = thread
    · subst heq
      rw [Function.update_self] at hother
      exact .inl ⟨rfl, (Option.some.inj hother).symm⟩
    · rw [Function.update_of_ne heq] at hother
      exact .inr ⟨heq, hother⟩
  refine ⟨?_, ?_, ?_⟩
  · intro fd
    rw [openFd_apply, hcovers.opened]
    constructor
    · rintro ((hvisible | ⟨other, hother⟩) | hsock)
      · exact .inl hvisible
      · refine .inr ⟨other, ?_⟩
        rw [Function.update_of_ne, hother]
        rintro rfl
        rw [hheld] at hother
        cases hother
      · exact .inr ⟨thread, by rw [Function.update_self, hsock]⟩
    · rintro (hvisible | ⟨other, hother⟩)
      · exact .inl (.inl hvisible)
      · rcases hcases other fd hother with ⟨-, rfl⟩ | ⟨-, hbefore⟩
        · exact .inr rfl
        · exact .inl (.inr ⟨other, hbefore⟩)
  · intro other fd hother
    rcases hcases other fd hother with ⟨-, rfl⟩ | ⟨-, hbefore⟩
    · exact hunseen
    · exact hcovers.hidden other fd hbefore
  · intro first second fd hfirst hsecond
    rcases hcases first fd hfirst with ⟨hthread, hsock⟩ | ⟨-, hbefore⟩
    · rcases hcases second fd hsecond with ⟨hthread', -⟩ | ⟨-, hbefore'⟩
      · rw [hthread, hthread']
      · rw [hsock] at hbefore'
        exact absurd hbefore' (hcovers.unheld hunused second)
    · rcases hcases second fd hsecond with ⟨-, hsock⟩ | ⟨-, hbefore'⟩
      · rw [hsock] at hbefore
        exact absurd hbefore (hcovers.unheld hunused first)
      · exact hcovers.once first second fd hbefore hbefore'

theorem drop (hcovers : Covers held opened visible) (hheld : held thread = some sock) :
    Covers (Function.update held thread none) (SocketTable.closeFds opened [sock]) visible where
  opened := by
    intro fd
    rw [closeFds_apply, hcovers.opened, List.mem_singleton]
    constructor
    · rintro ⟨hvisible | ⟨other, hother⟩, hne⟩
      · exact .inl hvisible
      · refine .inr ⟨other, ?_⟩
        rw [Function.update_of_ne, hother]
        rintro rfl
        rw [hheld] at hother
        exact hne (Option.some.inj hother).symm
    · rintro (hvisible | ⟨other, hother⟩)
      · refine ⟨.inl hvisible, ?_⟩
        rintro rfl
        rw [hcovers.hidden thread fd hheld] at hvisible
        cases hvisible
      · obtain ⟨hne, hother⟩ := update_none hother
        refine ⟨.inr ⟨other, hother⟩, ?_⟩
        rintro rfl
        exact hne (hcovers.once other thread fd hother hheld)
  hidden := fun other fd hother => hcovers.hidden other fd (update_none hother).2
  once := fun first second fd hfirst hsecond =>
    hcovers.once first second fd (update_none hfirst).2 (update_none hsecond).2

end Covers

/-! ## The steps of the table -/

section Table

variable {held : ℕ → Option ℕ} {visible : ℕ → Bool} {table next : SocketTable.State}

end Table

/-! ## The steps of the threads -/

section Steps

variable {visible : ℕ → Bool} {state next : State}

end Steps

/-! ## Every run -/

end SocketAddresses
end SocketServer
end BackEndFacility
