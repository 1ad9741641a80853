import BackEndFacility.HttpIsolation

/-!
# One call of the handler for each request

`ParseBody` takes everything that is buffered for the body of the request it is
at: without a body it is thrown away, and with one it has to be of the announced
length.  So a read passes on one request at most, whatever else is in it.  When
nothing is buffered it reads first, so that a request without a body throws away the
request of the next read if that waits already; behind a body that request is left
alone.  A `POST` without a body is never finished, and a second `POST` is held to the
length of the first.
-/

namespace BackEndFacility

structure RequestLine where
  method : HttpMethod
  version : HttpVersion
  url : Bytes
deriving DecidableEq

def RequestView.requestLine (view : RequestView) : RequestLine where
  method := view.method
  version := view.version
  url := view.url

def Message.requestLine (message : Message) : RequestLine where
  method := message.method
  version := message.version
  url := message.url

def HttpRequest.requestLine (request : HttpRequest) : RequestLine :=
  request.view.requestLine

def readText (read : List Message) : Bytes :=
  (read.map Message.text).flatten

/-- A further `POST` is taken after an earlier one only when the body of that was
dropped and is as long. -/
def BodyTaken (policy : StringPolicy) (capacity : Nat) (earlier : List Message)
    (message : Message) : Prop :=
  message.method = .post → ∀ post, firstPost earlier = some post →
    policy.reserve capacity post.body.length = post.body.length ∧
      message.body.length = post.body.length

/-- The read holds one request, which reaches a handler, and whose body is taken. -/
def Takes (env : Environment) (capacity : Nat) (earlier read : List Message) : Prop :=
  ∃ message, read = [message] ∧ ¬ message.Unanswerable env ∧
    BodyTaken env.policy capacity earlier message

section Handed

variable {env : Environment} {capacity : Nat} {earlier : List Message} {message : Message}
  {request : HttpRequest}

theorem map_requestLine (found : Option HttpRequest) :
    found.map HttpRequest.requestLine =
      (found.map HttpRequest.view).map RequestView.requestLine := by
  cases found <;> rfl

theorem Carried.dropped_iff
    {post : Message}
    (hcarried : Carried env.policy capacity earlier request)
    (hpost : firstPost earlier = some post) :
    keptBody env.policy capacity post.body = [] ↔
      env.policy.reserve capacity post.body.length = post.body.length := by
  have hbody := hcarried.body
  rw [hpost] at hbody
  exact keptBody_eq_nil_iff hbody.1

theorem Carried.handed_line
    (hcarried : Carried env.policy capacity earlier request)
    (hanswerable : ¬ message.Unanswerable env)
    (htaken : BodyTaken env.policy capacity earlier message) :
    (message.handed env request message.body).map HttpRequest.requestLine =
      some message.requestLine := by
  have hempty : message.method = .post → message.body ≠ [] := by
    intro hmethod hnil
    exact hanswerable (.inr ⟨hnil, .inr hmethod⟩)
  rw [message.handed_of_answerable request hanswerable, map_requestLine]
  cases hpost : firstPost earlier with
  | none =>
      rw [hcarried.withoutPost hpost hempty]
      rfl
  | some post =>
      rw [hcarried.afterPost hpost, if_neg]
      · rfl
      · rintro ⟨hmethod, hnot⟩
        obtain ⟨hreserve, hlength⟩ := htaken hmethod post hpost
        exact hnot ⟨(hcarried.dropped_iff hpost).mpr hreserve, hlength⟩

theorem Carried.handed_none
    (hcarried : Carried env.policy capacity earlier request)
    (hnot : message.Unanswerable env ∨ ¬ BodyTaken env.policy capacity earlier message) :
    message.handed env request message.body = none := by
  by_cases hunanswerable : message.Unanswerable env
  · exact message.handed_of_unanswerable request hunanswerable
  have hrefused := hnot.resolve_left hunanswerable
  unfold BodyTaken at hrefused
  push Not at hrefused
  obtain ⟨hmethod, post, hpost, hlength⟩ := hrefused
  have hview := @Carried.afterPost env.policy capacity earlier message request post hcarried hpost
  rw [if_pos ⟨hmethod, fun hboth =>
    hlength ((hcarried.dropped_iff hpost).mp hboth.1) hboth.2⟩] at hview
  rw [message.handed_of_answerable request hunanswerable]
  exact Option.map_eq_none_iff.mp hview

end Handed

/-! ## Reads -/

namespace Session

variable {env : Environment} {client : HttpClient}

/-- The handler is called for each request of the read, in their order. -/
def Answers (env : Environment) (session : Session) (read : List Message) : Prop :=
  ∃ ending final, (session.deliver [readText read]).Runs env .read ending final ∧
    final.passed.map HttpRequest.requestLine =
      session.passed.map HttpRequest.requestLine ++ read.map Message.requestLine

theorem readText_cons (message : Message) (rest : List Message) :
    readText (message :: rest) = message.textBefore (message.body ++ readText rest) := by
  unfold readText
  rw [List.map_cons, List.flatten_cons]
  exact message.text_append _

theorem passes_atMostOne
    {session : Session} {message : Message} {rest : List Message}
    (hidle : session.Idle)
    (hfits : (readText (message :: rest)).length ≤ session.client.readBuffer.size) :
    ∃ ending final,
      (session.deliver [readText (message :: rest)]).Runs env .read ending final ∧
      final.passed = session.passed ++ (message.handed env session.client.request
        (message.body ++ readText rest)).toList := by
  rw [readText_cons] at hfits ⊢
  obtain ⟨ending, final, hruns, hpassed, -⟩ := exchange env hidle hfits
  exact ⟨ending, final, hruns, hpassed⟩

theorem answers_cons_iff
    {session : Session} {message : Message} {rest : List Message}
    (hidle : session.Idle)
    (hfits : (readText (message :: rest)).length ≤ session.client.readBuffer.size) :
    session.Answers env (message :: rest) ↔
      (message.handed env session.client.request
        (message.body ++ readText rest)).toList.map HttpRequest.requestLine =
          (message :: rest).map Message.requestLine := by
  obtain ⟨ending, final, hruns, hpassed⟩ := @passes_atMostOne env session message rest hidle hfits
  constructor
  · rintro ⟨ending', final', hruns', hlines⟩
    obtain ⟨-, rfl⟩ := hruns.unique hruns'
    rw [hpassed, List.map_append, List.append_cancel_left_eq] at hlines
    exact hlines
  · intro hlines
    refine ⟨ending, final, hruns, ?_⟩
    rw [hpassed, List.map_append, hlines]

/-- On an idle connection a read is answered exactly when it holds one request and
that is taken. -/
theorem answers_iff_takes
    {capacity : Nat} {earlier read : List Message} {session : Session}
    (hcarried : Carried env.policy capacity earlier session.client.request)
    (hidle : session.Idle)
    (hfits : (readText read).length ≤ session.client.readBuffer.size)
    (hread : read ≠ []) :
    session.Answers env read ↔ Takes env capacity earlier read := by
  cases read with
  | nil => exact absurd rfl hread
  | cons message rest =>
      rw [answers_cons_iff hidle hfits]
      cases rest with
      | nil =>
          have hbody : message.body ++ readText [] = message.body := List.append_nil _
          rw [hbody]
          by_cases htakes : ¬ message.Unanswerable env ∧
              BodyTaken env.policy capacity earlier message
          · have hline := hcarried.handed_line htakes.1 htakes.2
            rw [← Option.toList_map, hline]
            exact ⟨fun _ => ⟨message, rfl, htakes⟩, fun _ => rfl⟩
          · rw [not_and_or, not_not] at htakes
            rw [hcarried.handed_none htakes]
            constructor
            · nofun
            · rintro ⟨other, heq, htaken⟩
              cases heq
              exact absurd htaken (not_and_or.mpr (by rwa [not_not]))
      | cons next rest =>
          constructor
          · intro hlines
            have hlength := congrArg List.length hlines
            rw [List.length_map, List.length_map, List.length_cons, List.length_cons] at hlength
            have hone := @Option.length_toList_le _ (message.handed env session.client.request
              (message.body ++ readText (next :: rest)))
            omega
          · rintro ⟨other, heq, -⟩
            cases heq

/-! ## Runs -/

/-- A connection on which these requests have arrived, any number of reads before
each event and any number of requests in a read, when `meets` holds of what had
arrived earlier, the connection and the reads. -/
inductive Attends (env : Environment)
    (meets : List Message → Session → List (List Message) → Prop) (start : Session) :
    List Message → Session → Prop
  | start : Attends env meets start [] start
  | write {earlier : List Message} {session next : Session}
      (hattends : Attends env meets start earlier session)
      (hruns : session.Runs env .write .done next) :
      Attends env meets start earlier next
  | read {earlier : List Message} {reads : List (List Message)} {session next : Session}
      (hattends : Attends env meets start earlier session)
      (hmeets : meets earlier session reads)
      (hruns : (session.deliver (reads.map readText)).Runs env .read .done next) :
      Attends env meets start (earlier ++ reads.flatten) next

/-- Each read that arrives holds one request, which is taken.  It may wait behind
others only if the request before it has a body. -/
def Orderly (env : Environment) (capacity : Nat) (earlier : List Message) (session : Session)
    (reads : List (List Message)) : Prop :=
  ∀ before read after, reads = before ++ read :: after →
    (readText read).length ≤ session.client.readBuffer.size ∧
    Takes env capacity (earlier ++ before.flatten) read ∧
    (session.incoming ++ before.map readText = [] ∨
      ∀ last ∈ (earlier ++ before.flatten).getLast?, last.body ≠ [])

/-- The handler has been called once for each of these requests, in their order, up
to those that have not been read. -/
def InOrder (session : Session) (arrived : List Message) : Prop :=
  ∃ answered unread, arrived = answered ++ unread ∧
    session.incoming = unread.map Message.text ∧
    session.passed.map HttpRequest.requestLine = answered.map Message.requestLine

/-- Requests that wait one behind the other, each in a read of its own. -/
def Queued (env : Environment) (capacity size : Nat) : List Message → List Message → Prop
  | _, [] => True
  | earlier, message :: rest =>
      message.text.length ≤ size ∧ ¬ message.Unanswerable env ∧
        BodyTaken env.policy capacity earlier message ∧ (message.body = [] → rest = []) ∧
        Queued env capacity size (earlier ++ [message]) rest

/-- The state of a connection after these requests, all answered. -/
structure Attended (env : Environment) (capacity size : Nat) (earlier : List Message)
    (session : Session) : Prop where
  carried : Carried env.policy capacity earlier session.client.request
  answering : session.Answering
  size : session.client.readBuffer.size = size
  lines : session.passed.map HttpRequest.requestLine = earlier.map Message.requestLine

/-- An event has ended with these requests answered and the others not read. -/
structure Stopped (env : Environment) (capacity size : Nat) (answered unread : List Message)
    (ending : Ending) (final : Session) : Prop where
  incoming : final.incoming = unread.map Message.text
  lines : final.passed.map HttpRequest.requestLine = answered.map Message.requestLine
  attended : ending = .done → ∃ base, final = base.deliver (unread.map Message.text) ∧
    Attended env capacity size answered base

section Queue

variable {capacity size : Nat} {earlier queue : List Message} {message : Message}

theorem Queued.snoc
    (hqueued : Queued env capacity size earlier queue)
    (hfits : message.text.length ≤ size)
    (hanswerable : ¬ message.Unanswerable env)
    (htaken : BodyTaken env.policy capacity (earlier ++ queue) message)
    (hlast : ∀ last ∈ queue.getLast?, last.body ≠ []) :
    Queued env capacity size earlier (queue ++ [message]) := by
  induction queue generalizing earlier with
  | nil =>
      rw [List.append_nil] at htaken
      exact ⟨hfits, hanswerable, htaken, fun _ => rfl, trivial⟩
  | cons first rest ih =>
      obtain ⟨hsize, hfirst, htakes, hquiet, hrest⟩ := hqueued
      refine ⟨hsize, hfirst, htakes, fun hempty => ?_, ih hrest ?_ ?_⟩
      · have hnil := hquiet hempty
        subst hnil
        exact absurd hempty (hlast first rfl)
      · rw [List.append_assoc]
        exact htaken
      · intro last hmem
        exact hlast last (List.mem_getLast?_cons hmem)

theorem readText_singleton (message : Message) :
    readText [message] = message.text :=
  List.append_nil _

theorem flatten_singletons (messages : List Message) :
    (messages.map fun message => [message]).flatten = messages := by
  rw [← List.flatMap_def, List.flatMap_singleton']

theorem map_readText_singletons (messages : List Message) :
    (messages.map fun message => [message]).map readText = messages.map Message.text := by
  rw [List.map_map]
  exact List.map_congr_left fun message _ => readText_singleton message

/-- Reads that arrive in order line up behind those that wait already. -/
theorem Orderly.queued
    {session : Session} {answered unread : List Message} {reads : List (List Message)}
    (horderly : Orderly env capacity (answered ++ unread) session reads)
    (hqueued : Queued env capacity session.client.readBuffer.size answered unread)
    (hincoming : session.incoming = unread.map Message.text) :
    ∃ messages, reads = messages.map (fun message => [message]) ∧
      Queued env capacity session.client.readBuffer.size answered (unread ++ messages) := by
  induction reads using List.reverseRecOn with
  | nil =>
      refine ⟨[], rfl, ?_⟩
      rw [List.append_nil]
      exact hqueued
  | append_singleton reads read ih =>
      have hbefore : Orderly env capacity (answered ++ unread) session reads := by
        intro before other after heq
        refine horderly before other (after ++ [read]) ?_
        rw [heq, List.append_assoc, List.cons_append]
      obtain ⟨messages, rfl, hmessages⟩ := ih hbefore
      obtain ⟨hfits, ⟨message, rfl, hanswerable, htaken⟩, hwaits⟩ := horderly _ read [] rfl
      rw [readText_singleton] at hfits
      rw [flatten_singletons, List.append_assoc] at htaken hwaits
      rw [hincoming, map_readText_singletons, ← List.map_append] at hwaits
      refine ⟨messages ++ [message], ?_, ?_⟩
      · rw [List.map_append, List.map_singleton]
      · rw [← List.append_assoc]
        refine hmessages.snoc hfits hanswerable htaken fun last hmem => ?_
        rcases hwaits with hnone | hlast
        · rw [List.map_eq_nil_iff.mp hnone] at hmem
          cases hmem
        · refine hlast last ?_
          rw [List.getLast?_append, hmem]
          rfl

end Queue

/-! ## Events -/

section Events

variable {code : SocketCode} {capacity size : Nat} {answered queue : List Message}
  {session next : Session}

theorem Attended.kept
    (hattended : Attended env capacity size answered session)
    (hkept : session.Kept next)
    (hanswering : next.Answering) :
    Attended env capacity size answered next := by
  refine ⟨?_, hanswering, ?_, ?_⟩
  · rw [hkept.request]
    exact hattended.carried
  · rw [hkept.readBuffer]
    exact hattended.size
  · rw [hkept.passed]
    exact hattended.lines

theorem incoming_deliver
    (pieces : List Bytes)
    (hincoming : session.incoming = []) :
    (session.deliver pieces).incoming = pieces := by
  unfold deliver
  rw [hincoming, List.nil_append]

theorem stopped_deliver
    {ending : Ending}
    (hincoming : session.incoming = [])
    (hlines : session.passed.map HttpRequest.requestLine = answered.map Message.requestLine)
    (hdone : ending = .done → Attended env capacity size answered session) :
    Stopped env capacity size answered queue ending
      (session.deliver (queue.map Message.text)) := by
  exact ⟨incoming_deliver _ hincoming, hlines, fun hending => ⟨session, rfl, hdone hending⟩⟩

/-- A call that makes no progress ends the event. -/
theorem Attended.ends
    {len : Int}
    (hattended : Attended env capacity size answered next)
    (hreply : session.Replies env code
      (.returned len (next.deliver (queue.map Message.text))))
    (hlen : len ≤ 0) :
    ∃ ending final, session.Runs env code ending final ∧
      Stopped env capacity size answered queue ending final := by
  rcases lt_or_eq_of_le hlen with hneg | rfl
  · have hclosed : Stopped env capacity size answered queue .closed
        ((next.closeConnection env).deliver (queue.map Message.text)) :=
      stopped_deliver hattended.answering.incoming hattended.lines nofun
    exact ⟨_, _, runs_of_negative hreply hneg, hclosed⟩
  · exact ⟨_, _, runs_of_zero hreply,
      stopped_deliver hattended.answering.incoming hattended.lines fun _ => hattended⟩

/-- The event ends while an answer is being sent, or all of it is sent. -/
theorem Attended.sends
    (code : SocketCode) (queue : List Message)
    (hattended : Attended env capacity size answered session) :
    (∃ ending final, (session.deliver (queue.map Message.text)).Runs env code ending final ∧
      Stopped env capacity size answered queue ending final) ∨
    ∃ next, Attended env capacity size answered next ∧
      next.client.evtHandler = .processRequestLine ∧
      ∀ ending final, (session.deliver (queue.map Message.text)).Runs env code ending final ↔
        (next.deliver (queue.map Message.text)).Runs env code ending final := by
  generalize hwork : session.work = work
  induction work using WellFoundedLT.induction generalizing session with
  | ind work ih =>
      rcases hattended.answering.handler with hsend | hline
      swap
      · exact .inr ⟨session, hattended, hline, fun _ _ => Iff.rfl⟩
      obtain ⟨len, next, hreply, hkept, hanswering⟩ :=
        sending_replies env code hattended.answering hsend
      have hnext := hattended.kept hkept hanswering
      have hfed : session.Fed := .inr (.inl hsend)
      by_cases hlen : len ≤ 0
      · exact .inl (hnext.ends (hreply.deliver (queue.map Message.text) fun _ => hfed) hlen)
      have hcontinues : session.Continues env code next := ⟨len, not_le.mp hlen, hreply⟩
      have huncut : ¬ session.HeaderCut env code := by
        intro hcut
        rw [hcut.1] at hsend
        cases hsend
      have hiff := (hcontinues.deliver (queue.map Message.text) fun _ => hfed).runs_iff
      rcases ih next.work (hwork ▸ hcontinues.work_lt huncut) hnext rfl with
        ⟨ending, final, hruns, hstopped⟩ | ⟨last, hlast, hline, hlastIff⟩
      · exact .inl ⟨ending, final, (hiff ending final).mpr hruns, hstopped⟩
      · exact .inr ⟨last, hlast, hline,
          fun ending final => (hiff ending final).trans (hlastIff ending final)⟩

/-- Nothing is read on an idle connection. -/
theorem Attended.idle_ends
    (hattended : Attended env capacity size answered session)
    (hline : session.client.evtHandler = .processRequestLine)
    (hquiet : code = .read → queue = []) :
    ∃ ending final, (session.deliver (queue.map Message.text)).Runs env code ending final ∧
      Stopped env capacity size answered queue ending final := by
  obtain ⟨len, next, hlen, hreply, hkept, hanswering⟩ :=
    idle_replies env code hattended.answering hline
  refine (hattended.kept hkept hanswering).ends ?_ hlen
  by_cases hread : code = .read
  · rw [hquiet hread, List.map_nil, deliver_nil, deliver_nil]
    exact hreply
  · exact hreply.deliver (queue.map Message.text) fun hcode => absurd hcode hread

theorem Attended.answer_lines
    {message : Message} {request : HttpRequest}
    (hattended : Attended env capacity size answered session)
    (hanswerable : ¬ message.Unanswerable env)
    (htaken : BodyTaken env.policy capacity answered message)
    (hhanded : message.handed env session.client.request message.body = some request)
    (hpassed : next.passed = session.passed ++ [request]) :
    next.passed.map HttpRequest.requestLine =
      (answered ++ [message]).map Message.requestLine := by
  have hline := hattended.carried.handed_line hanswerable htaken
  rw [hhanded] at hline
  rw [hpassed, List.map_append, List.map_append, hattended.lines]
  exact congrArg (answered.map Message.requestLine ++ [·]) (Option.some.inj hline)

/-- The first of the requests that wait is answered, or the event ends with it. -/
theorem Attended.takes
    {message : Message}
    (hattended : Attended env capacity size answered session)
    (hline : session.client.evtHandler = .processRequestLine)
    (hqueued : Queued env capacity size answered (message :: queue)) :
    (∃ ending final,
      (session.deliver ((message :: queue).map Message.text)).Runs env .read ending final ∧
      Stopped env capacity size (answered ++ [message]) queue ending final) ∨
    ∃ next, Attended env capacity size (answered ++ [message]) next ∧
      ∀ ending final,
        (session.deliver ((message :: queue).map Message.text)).Runs env .read ending final ↔
          (next.deliver (queue.map Message.text)).Runs env .read ending final := by
  obtain ⟨hfits, hanswerable, htaken, hquiet, -⟩ := hqueued
  have hidle : session.Idle :=
    ⟨hline, hattended.answering.content, hattended.answering.incoming⟩
  have hsome := hattended.carried.handed_line hanswerable htaken
  cases hhanded : message.handed env session.client.request message.body with
  | none =>
      rw [hhanded] at hsome
      cases hsome
  | some request =>
      obtain ⟨ready, hready, hiff⟩ :=
        exists_atHandler_waiting hidle (hattended.size.symm ▸ hfits) hhanded
      have hruns := hiff (queue.map Message.text) fun hempty => by
        rw [hquiet hempty, List.map_nil]
      have hfed : ready.Fed := by
        refine .inl ?_
        rw [hready.client]
      obtain ⟨reply, hreply, ⟨final, rfl, hincoming, hpassed⟩ |
        ⟨next, rfl, hpassed, hrequest, hanswering, hsize⟩⟩ :=
        @AtHandler.replies env .read session ready request hready
      · have hcrash := hreply.deliver (queue.map Message.text) fun _ => hfed
        refine .inl ⟨.crashed, _, (hruns _ _).mpr (runs_of_crashed hcrash), ?_⟩
        exact stopped_deliver hincoming
          (hattended.answer_lines hanswerable htaken hhanded hpassed) nofun
      · have hcontinues : ready.Continues env .read next := ⟨1, Int.one_pos, hreply⟩
        have hnext := (hcontinues.deliver (queue.map Message.text) fun _ => hfed).runs_iff
        have hlines := hattended.answer_lines hanswerable htaken hhanded hpassed
        rw [message.handed_of_answerable _ hanswerable] at hhanded
        refine .inr ⟨next, ⟨?_, hanswering, hsize.trans hattended.size, hlines⟩,
          fun ending final => (hruns ending final).trans (hnext ending final)⟩
        rw [hrequest]
        exact hattended.carried.accept hhanded

/-- On a connection that expects a request the first of those that wait is read. -/
theorem Attended.runs_idle
    (hattended : Attended env capacity size answered session)
    (hline : session.client.evtHandler = .processRequestLine)
    (hqueued : Queued env capacity size answered queue) :
    ∃ ending final read left, queue = read ++ left ∧ (read = [] → left = []) ∧
      (session.deliver (queue.map Message.text)).Runs env .read ending final ∧
      Stopped env capacity size (answered ++ read) left ending final := by
  induction queue generalizing answered session with
  | nil =>
      obtain ⟨ending, final, hruns, hstopped⟩ := hattended.idle_ends hline fun _ => rfl
      refine ⟨ending, final, [], [], rfl, fun _ => rfl, hruns, ?_⟩
      rw [List.append_nil]
      exact hstopped
  | cons message rest ih =>
      rcases hattended.takes hline hqueued with
        ⟨ending, final, hruns, hstopped⟩ | ⟨next, hnext, hiff⟩
      · exact ⟨ending, final, [message], rest, rfl, nofun, hruns, hstopped⟩
      rcases hnext.sends .read rest with
        ⟨ending, final, hruns, hstopped⟩ | ⟨last, hlast, hlastLine, hlastIff⟩
      · exact ⟨ending, final, [message], rest, rfl, nofun, (hiff _ _).mpr hruns, hstopped⟩
      obtain ⟨ending, final, read, left, rfl, -, hruns, hstopped⟩ :=
        ih hlast hlastLine hqueued.2.2.2.2
      refine ⟨ending, final, message :: read, left, rfl, nofun,
        (hiff _ _).mpr ((hlastIff _ _).mpr hruns), ?_⟩
      rw [List.append_cons]
      exact hstopped

theorem Attended.runs
    (code : SocketCode)
    (hattended : Attended env capacity size answered session)
    (hqueued : Queued env capacity size answered queue) :
    ∃ ending final read left, queue = read ++ left ∧
      (code = .read → session.client.evtHandler = .processRequestLine → read = [] → left = []) ∧
      (session.deliver (queue.map Message.text)).Runs env code ending final ∧
      Stopped env capacity size (answered ++ read) left ending final := by
  by_cases hidle : code = .read ∧ session.client.evtHandler = .processRequestLine
  · obtain ⟨rfl, hline⟩ := hidle
    obtain ⟨ending, final, read, left, hsplit, hfirst, hruns, hstopped⟩ :=
      hattended.runs_idle hline hqueued
    exact ⟨ending, final, read, left, hsplit, fun _ _ => hfirst, hruns, hstopped⟩
  rcases hattended.sends code queue with
    ⟨ending, final, hruns, hstopped⟩ | ⟨last, hlast, hlastLine, hlastIff⟩
  · refine ⟨ending, final, [], queue, rfl, fun hread hline => absurd ⟨hread, hline⟩ hidle,
      hruns, ?_⟩
    rw [List.append_nil]
    exact hstopped
  by_cases hread : code = .read
  · subst hread
    obtain ⟨ending, final, read, left, hsplit, -, hruns, hstopped⟩ :=
      hlast.runs_idle hlastLine hqueued
    exact ⟨ending, final, read, left, hsplit, fun _ hline => absurd ⟨rfl, hline⟩ hidle,
      (hlastIff _ _).mpr hruns, hstopped⟩
  · obtain ⟨ending, final, hruns, hstopped⟩ :=
      hlast.idle_ends hlastLine fun hcode => absurd hcode hread
    refine ⟨ending, final, [], queue, rfl, fun hcode => absurd hcode hread,
      (hlastIff _ _).mpr hruns, ?_⟩
    rw [List.append_nil]
    exact hstopped

end Events

/-! ## Runs -/

section Runs

variable {capacity size : Nat} {earlier : List Message} {session next : Session}

/-- Some of these requests have been answered, and the others wait. -/
def Attending (env : Environment) (capacity size : Nat) (earlier : List Message)
    (session : Session) : Prop :=
  ∃ answered unread base, earlier = answered ++ unread ∧
    session = base.deliver (unread.map Message.text) ∧
    Attended env capacity size answered base ∧ Queued env capacity size answered unread

theorem Queued.behind
    {read left : List Message}
    (hqueued : Queued env capacity size earlier (read ++ left)) :
    Queued env capacity size (earlier ++ read) left := by
  induction read generalizing earlier with
  | nil =>
      rw [List.append_nil]
      exact hqueued
  | cons message read ih =>
      have hrest := ih hqueued.2.2.2.2
      rwa [List.append_assoc] at hrest

theorem Attended.attending
    (hattended : Attended env capacity size earlier session) :
    Attending env capacity size earlier session :=
  ⟨earlier, [], session, (List.append_nil _).symm, (deliver_nil session).symm, hattended, trivial⟩

theorem Attending.event
    {reads : List (List Message)} (code : SocketCode)
    (hattending : Attending env capacity size earlier session)
    (horderly : Orderly env capacity earlier session reads) :
    ∃ ending final, (session.deliver (reads.map readText)).Runs env code ending final ∧
      final.InOrder (earlier ++ reads.flatten) ∧
      (∃ read, session.incoming ++ reads.map readText = read ++ final.incoming ∧
        (code = .read → session.client.evtHandler = .processRequestLine → read = [] →
          final.incoming = [])) ∧
      (ending = .done → Attending env capacity size (earlier ++ reads.flatten) final) := by
  obtain ⟨answered, unread, base, rfl, rfl, hattended, hqueued⟩ := hattending
  have hincoming : (base.deliver (unread.map Message.text)).incoming =
      unread.map Message.text :=
    incoming_deliver _ hattended.answering.incoming
  have hsize : (base.deliver (unread.map Message.text)).client.readBuffer.size = size :=
    hattended.size
  rw [← hsize] at hqueued
  obtain ⟨messages, rfl, hall⟩ := horderly.queued hqueued hincoming
  rw [hsize] at hall
  rw [hincoming, map_readText_singletons, flatten_singletons, deliver_deliver, ← List.map_append,
    List.append_assoc]
  obtain ⟨ending, final, read, left, hsplit, hfirst, hruns, hstopped⟩ :=
    hattended.runs code hall
  refine ⟨ending, final, hruns, ?_, ?_, fun hending => ?_⟩
  · refine ⟨answered ++ read, left, ?_, hstopped.incoming, hstopped.lines⟩
    rw [hsplit, List.append_assoc]
  · refine ⟨read.map Message.text, ?_, fun hread hline hnone => ?_⟩
    · rw [hstopped.incoming, hsplit, List.map_append]
    · rw [hstopped.incoming, hfirst hread hline (List.map_eq_nil_iff.mp hnone), List.map_nil]
  · obtain ⟨next, rfl, hnext⟩ := hstopped.attended hending
    rw [hsplit] at hall
    refine ⟨answered ++ read, left, next, ?_, rfl, hnext, hall.behind⟩
    rw [hsplit, List.append_assoc]

theorem attended_connect (env : Environment) (client : HttpClient) :
    Attended env (env.policy.clear client.request.bodyCapacity) client.readBuffer.size []
      (connect env client) :=
  ⟨⟨rfl, rfl, rfl, rfl, rfl⟩, idle_answering (idle_connect env client), rfl, rfl⟩

theorem Attends.attending
    (hattends : (connect env client).Attends env
      (Orderly env (env.policy.clear client.request.bodyCapacity)) earlier session) :
    Attending env (env.policy.clear client.request.bodyCapacity) client.readBuffer.size earlier
      session := by
  induction hattends with
  | start => exact (attended_connect env client).attending
  | @write earlier session next _ hruns ih =>
      have hnone : Orderly env (env.policy.clear client.request.bodyCapacity) earlier
          session [] := by
        intro before read after heq
        simp at heq
      obtain ⟨ending, final, hevent, -, -, hdone⟩ := ih.event .write hnone
      rw [List.map_nil, deliver_nil] at hevent
      obtain ⟨hending, rfl⟩ := hruns.unique hevent
      have hattending := hdone hending.symm
      rwa [List.flatten_nil, List.append_nil] at hattending
  | read _ hmeets hruns ih =>
      obtain ⟨ending, final, hevent, -, -, hdone⟩ := ih.event .read hmeets
      obtain ⟨hending, rfl⟩ := hruns.unique hevent
      exact hdone hending.symm

theorem Attending.inOrder
    (hattending : Attending env capacity size earlier session) :
    session.InOrder earlier := by
  obtain ⟨answered, unread, base, rfl, rfl, hattended, -⟩ := hattending
  exact ⟨answered, unread, rfl, incoming_deliver _ hattended.answering.incoming, hattended.lines⟩

theorem Attending.attended
    (hattending : Attending env capacity size earlier session)
    (hincoming : session.incoming = []) :
    Attended env capacity size earlier session := by
  obtain ⟨answered, unread, base, rfl, rfl, hattended, -⟩ := hattending
  rw [incoming_deliver _ hattended.answering.incoming] at hincoming
  rw [List.map_eq_nil_iff.mp hincoming, List.map_nil, deliver_nil, List.append_nil]
  exact hattended

/-- In a run in which every read that arrives is taken, and waits behind others only
when the request before it has a body, the handler has been called once for each
request that has been read, in their order, and so it is after the next event; on a
connection that expects a request that event reads one at least.  On an idle
connection the handler is called for a further read exactly when that is taken. -/
theorem attends_inOrder
    (hattends : (connect env client).Attends env
      (Orderly env (env.policy.clear client.request.bodyCapacity)) earlier session) :
    session.InOrder earlier ∧
    (∀ reads, Orderly env (env.policy.clear client.request.bodyCapacity) earlier session reads →
      ∃ ending final, (session.deliver (reads.map readText)).Runs env .read ending final ∧
        final.InOrder (earlier ++ reads.flatten) ∧
        ∃ read, session.incoming ++ reads.map readText = read ++ final.incoming ∧
          (session.client.evtHandler = .processRequestLine → read = [] →
            final.incoming = [])) ∧
    ∀ read, read ≠ [] → session.Idle → (readText read).length ≤ client.readBuffer.size →
      (session.Answers env read ↔
        Takes env (env.policy.clear client.request.bodyCapacity) earlier read) := by
  have hattending := hattends.attending
  refine ⟨hattending.inOrder, ?_, ?_⟩
  · intro reads horderly
    obtain ⟨ending, final, hruns, hinOrder, ⟨read, hsplit, hfirst⟩, -⟩ :=
      hattending.event .read horderly
    exact ⟨ending, final, hruns, hinOrder, read, hsplit, hfirst rfl⟩
  · intro read hread hidle hfits
    have hattended := hattending.attended hidle.incoming
    exact answers_iff_takes hattended.carried hidle (hattended.size.symm ▸ hfits) hread

end Runs

/-! ## Two requests -/

theorem takes_get
    {env : Environment} {capacity : Nat} {earlier : List Message} {message : Message}
    (hmethod : message.method ≠ .post)
    (hmark : ¬ message.MarkBehind message.body)
    (hagain : env.readEnd = .again) :
    Takes env capacity earlier [message] := by
  refine ⟨message, rfl, ?_, fun hpost => absurd hpost hmethod⟩
  rintro (hbehind | ⟨-, herror | hpost⟩)
  · exact hmark hbehind
  · rw [hagain] at herror
    cases herror
  · exact hmethod hpost

theorem takes_post
    {env : Environment} {capacity : Nat} {earlier : List Message} {message : Message}
    (hfirst : firstPost earlier = none)
    (hmark : ¬ message.MarkBehind message.body)
    (hbody : message.body ≠ []) :
    Takes env capacity earlier [message] := by
  refine ⟨message, rfl, ?_, fun _ post hpost => ?_⟩
  · rintro (hbehind | ⟨hempty, -⟩)
    · exact hmark hbehind
    · exact hbody hempty
  · rw [hfirst] at hpost
    cases hpost

/-- The event leaves the connection idle. -/
def endsIdle : Option (Ending × Session) → Bool
  | some (.done, final) =>
      decide (final.client.evtHandler = .processRequestLine ∧
        final.client.readBuffer.content = [] ∧ final.incoming = [])
  | _ => false

theorem exists_idle
    {session : Session} (fuel : Nat)
    (hends : endsIdle (session.processEvent plain .read fuel) = true) :
    ∃ final, session.Runs plain .read .done final ∧ final.Idle := by
  cases hevent : session.processEvent plain .read fuel with
  | none =>
      rw [hevent] at hends
      cases hends
  | some result =>
      obtain ⟨ending, final⟩ := result
      rw [hevent] at hends
      cases ending with
      | done =>
          unfold endsIdle at hends
          rw [decide_eq_true_eq] at hends
          obtain ⟨hhandler, hcontent, hincoming⟩ := hends
          exact ⟨final, ⟨fuel, hevent⟩, ⟨hhandler, hcontent, hincoming⟩⟩
      | closed => cases hends
      | crashed => cases hends

/-- `POST /` with the body `a`. -/
def postLetter : Message :=
  postByte 97

theorem orderly_letterThenGet :
    Orderly plain 15 [] fresh [[postLetter], [getPlain]] := by
  intro before read after heq
  rw [fresh_size]
  rcases before with _ | ⟨first, _ | ⟨second, rest⟩⟩
  · rw [List.nil_append, List.cons.injEq] at heq
    obtain ⟨rfl, -⟩ := heq
    exact ⟨by decide, takes_post rfl (by decide) (by decide), .inl rfl⟩
  · rw [List.cons_append, List.cons.injEq, List.nil_append, List.cons.injEq] at heq
    obtain ⟨rfl, rfl, -⟩ := heq
    refine ⟨by decide, takes_get nofun (by decide) rfl, .inr fun last hlast => ?_⟩
    cases hlast
    decide
  · have hlength := congrArg List.length heq
    simp at hlength

/-- A `GET` that waits behind a `POST` is answered in the same event. -/
theorem answers_letterThenGet :
    ∃ session, fresh.Attends plain (Orderly plain 15) [postLetter, getPlain] session ∧
      session.passed.map HttpRequest.requestLine =
        [postLetter.requestLine, getPlain.requestLine] ∧
      session.Answers plain [getQuery] := by
  obtain ⟨session, hruns, hidle⟩ := @exists_idle
    (fresh.deliver ([[postLetter], [getPlain]].map readText)) 16 (by decide +kernel)
  have hattends : fresh.Attends plain (Orderly plain 15) [postLetter, getPlain] session :=
    .read .start orderly_letterThenGet hruns
  obtain ⟨⟨answered, unread, hsplit, hincoming, hlines⟩, -, hnext⟩ := @attends_inOrder plain
    (.construct (List.replicate (8 * 1024) 0) 15 false 0) [postLetter, getPlain] session hattends
  rw [hidle.incoming] at hincoming
  rw [List.map_eq_nil_iff.mp hincoming.symm, List.append_nil] at hsplit
  refine ⟨session, hattends, ?_, (hnext [getQuery] nofun hidle ?_).mpr ?_⟩
  · rw [hlines, ← hsplit]
    rfl
  · rw [show (HttpClient.construct (List.replicate (8 * 1024) 0) 15 false 0).readBuffer.size =
      8 * 1024 from List.length_replicate]
    decide
  · exact takes_get nofun (by decide) rfl

/-- Of two requests in one read only the first is answered. -/
theorem not_answers_pipelined :
    ¬ ∀ (env : Environment) (client : HttpClient) (read : List Message), read ≠ [] →
      (readText read).length ≤ client.readBuffer.size →
      (connect env client).Answers env read := by
  intro hall
  have hfits : (readText [getPlain, getPlain]).length ≤
      (HttpClient.construct (List.replicate (8 * 1024) 0) 15 false 0).readBuffer.size := by
    rw [show (HttpClient.construct (List.replicate (8 * 1024) 0) 15 false 0).readBuffer.size =
      8 * 1024 from List.length_replicate]
    decide
  have hanswers := hall plain _ [getPlain, getPlain] nofun hfits
  obtain ⟨message, hone, -⟩ := (answers_iff_takes (attended_connect plain _).carried
    (idle_connect _ _) hfits (List.cons_ne_nil _ _)).mp hanswers
  cases hone

end Session

end BackEndFacility
