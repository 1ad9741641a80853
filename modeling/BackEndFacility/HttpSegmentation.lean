import BackEndFacility.HttpTermination

/-!
# The same stream, cut differently

A byte stream is fed to a client in pieces, one event each.  The request line is
not kept until it is complete: what has been parsed is consumed, and what is left
is never joined with the next piece.  So two cuts of one stream agree only when no
cut gets anywhere, and which streams these are is said by `Quiet`.
-/

namespace BackEndFacility

/-! ## Methods -/

theorem HttpMethod.cases_of_ofText
    {text : Bytes}
    (hvalid : HttpMethod.ofText text ≠ .invalid) :
    text = ascii ['G', 'E', 'T'] ∨ text = ascii ['P', 'O', 'S', 'T'] ∨
      text = ascii ['H', 'E', 'A', 'D'] ∨ text = ascii ['P', 'U', 'T'] ∨
      text = ascii ['D', 'E', 'L', 'E', 'T', 'E'] := by
  unfold HttpMethod.ofText at hvalid
  split_ifs at hvalid with hget hpost hhead hput hdelete
  · exact .inl hget
  · exact .inr (.inl hpost)
  · exact .inr (.inr (.inl hhead))
  · exact .inr (.inr (.inr (.inl hput)))
  · exact .inr (.inr (.inr (.inr hdelete)))
  · exact absurd rfl hvalid

/-- Nothing in these bytes ends a url or a line. -/
def Clean (bytes : Bytes) : Prop :=
  questionMark ∉ bytes ∧ ¬ httpCtrl <:+: bytes

theorem clean_method
    {text : Bytes}
    (hvalid : HttpMethod.ofText text ≠ .invalid) :
    Clean text := by
  unfold Clean
  rcases HttpMethod.cases_of_ofText hvalid with rfl | rfl | rfl | rfl | rfl <;> decide

theorem clean_append
    {u v : Bytes}
    (hu : Clean u)
    (hv : Clean v) :
    Clean (u ++ space :: v) := by
  refine ⟨?_, fun hinside => ?_⟩
  · simp only [List.mem_append, List.mem_cons, not_or]
    exact ⟨hu.1, by decide, hv.1⟩
  · rcases pair_infix_cons (by decide) (by decide) hinside with h | h
    · exact hu.2 h
    · exact hv.2 h

theorem clean_inside
    {u v : Bytes}
    (hv : Clean v)
    (hinside : u <:+: v) :
    Clean u := by
  exact ⟨fun hmem => hv.1 (hinside.subset hmem), fun h => hv.2 (h.trans hinside)⟩

/-! ## One piece -/

namespace Session

/-- Nothing is buffered and a request line is expected. -/
structure Idle (session : Session) : Prop where
  handler : session.client.evtHandler = .processRequestLine
  content : session.client.readBuffer.content = []
  incoming : session.incoming = []

/-- Something is buffered that no request line starts with. -/
structure Waiting (session : Session) : Prop where
  handler : session.client.evtHandler = .processRequestLine
  content : session.client.readBuffer.content ≠ []
  noSpace : space ∉ session.client.readBuffer.content

variable {env : Environment} {code : SocketCode}

theorem fetch_nonempty
    {session : Session}
    (hcontent : session.client.readBuffer.content ≠ []) :
    session.fetch env code = (0, session) := by
  unfold fetch
  split_ifs with hcode
  · rcases session.readHttpData_cases env with
      ⟨-, heq⟩ | ⟨hempty, -⟩ | ⟨hempty, -⟩ | ⟨hempty, -⟩ | ⟨rest, hempty, -⟩ |
      ⟨piece, rest, buffer, hempty, -⟩
    · exact heq
    all_goals exact absurd hempty hcontent
  · rfl

/-- The session in which a piece has been read into the empty buffer. -/
structure Loaded (session : Session) (piece : Bytes) (loaded : Session) : Prop where
  client : loaded.client = { session.client with readBuffer := loaded.client.readBuffer }
  size : loaded.client.readBuffer.size = session.client.readBuffer.size
  content : loaded.client.readBuffer.content = piece
  window : loaded.client.readBuffer.window = piece
  incoming : loaded.incoming = []
  passed : loaded.passed = session.passed
  sent : loaded.sent = session.sent

theorem runs_iff_of_handle
    {first second : Session} (ending : Ending) (final : Session)
    (hhandle : ∀ fuel, first.handle env code fuel = second.handle env code fuel) :
    first.Runs env code ending final ↔ second.Runs env code ending final := by
  have hevent : ∀ fuel, first.processEvent env code fuel = second.processEvent env code fuel := by
    intro fuel
    cases fuel with
    | zero => rfl
    | succ fuel => rw [processEvent, processEvent, hhandle]
  unfold Runs
  simp only [hevent]

/-- A piece arrives on an idle connection, with others behind it. -/
theorem exists_loaded_waiting
    (env : Environment) {session : Session} (piece : Bytes)
    (hidle : session.Idle)
    (hpiece : piece ≠ [])
    (hfits : piece.length ≤ session.client.readBuffer.size) :
    ∃ loaded, session.Loaded piece loaded ∧ ∀ waiting ending final,
      (session.deliver (piece :: waiting)).Runs env .read ending final ↔
        (loaded.deliver waiting).Runs env .read ending final := by
  have hincoming : (session.deliver [piece]).incoming = [piece] := by
    unfold deliver
    rw [hidle.incoming]
    rfl
  rcases (session.deliver [piece]).readHttpData_cases env with
    ⟨hcontent, -⟩ | ⟨-, hsize, -⟩ | ⟨-, -, hnil, -⟩ | ⟨-, -, hnil, -⟩ | ⟨rest, -, -, hnil, -⟩ |
    ⟨first, rest, buffer, -, -, hcons, -, hread, hsize, hbuffer, hwindow⟩
  · exact absurd hidle.content hcontent
  · have hzero : session.client.readBuffer.size = 0 := hsize
    have hlen : 0 < piece.length := List.length_pos_iff.mpr hpiece
    omega
  · rw [hincoming] at hnil
    exact absurd hnil nofun
  · rw [hincoming] at hnil
    exact absurd hnil nofun
  · rw [hincoming] at hnil
    simp only [List.cons.injEq] at hnil
    exact absurd hnil.1 hpiece
  · rw [hincoming] at hcons
    simp only [List.cons.injEq] at hcons
    obtain ⟨rfl, rfl⟩ := hcons
    have htake : piece.take (session.deliver [piece]).client.readBuffer.size = piece :=
      List.take_of_length_le hfits
    have hroom : piece.length ≤ (session.deliver [piece]).client.readBuffer.size := hfits
    rw [htake] at hbuffer hwindow
    rw [htake, if_pos hroom] at hread
    have hload : session.Loaded piece ((session.deliver [piece]).afterRead [] buffer) :=
      ⟨rfl, hsize, hbuffer, hwindow, rfl, rfl, rfl⟩
    refine ⟨_, hload, ?_⟩
    have hhandle : ∀ fuel, (session.deliver [piece]).handle env .read fuel =
        ((session.deliver [piece]).afterRead [] buffer).handle env .read fuel := by
      intro fuel
      have hnext : ((session.deliver [piece]).afterRead [] buffer).fetch env .read =
          (0, (session.deliver [piece]).afterRead [] buffer) := by
        refine fetch_nonempty ?_
        rw [hload.content]
        exact hpiece
      have hfirst : (session.deliver [piece]).fetch env .read =
          ((piece.length : Int), (session.deliver [piece]).afterRead [] buffer) := by
        exact hread
      have hbefore : (session.deliver [piece]).client.evtHandler = .processRequestLine :=
        hidle.handler
      have hafter : ((session.deliver [piece]).afterRead [] buffer).client.evtHandler =
          .processRequestLine :=
        hidle.handler
      unfold handle processRequestLine process
      simp only [hbefore, hafter, hfirst, hnext]
      rw [if_neg (by omega), if_neg (by omega)]
    intro waiting ending final
    have hdeliver : session.deliver (piece :: waiting) =
        (session.deliver [piece]).deliver waiting := by
      rw [deliver_deliver, List.singleton_append]
    have hbefore : (session.deliver [piece]).Fed := by
      refine .inr (.inr (.inr ?_))
      rw [hincoming]
      exact List.cons_ne_nil _ _
    have hafter : ((session.deliver [piece]).afterRead [] buffer).Fed := by
      refine .inr (.inr (.inl ?_))
      rw [hload.content]
      exact hpiece
    rw [hdeliver]
    refine runs_iff_of_handle ending final fun fuel => ?_
    rw [handle_deliver fuel waiting fun _ => hbefore, handle_deliver fuel waiting fun _ => hafter,
      hhandle]

theorem exists_loaded
    (env : Environment) {session : Session} (piece : Bytes)
    (hidle : session.Idle)
    (hpiece : piece ≠ [])
    (hfits : piece.length ≤ session.client.readBuffer.size) :
    ∃ loaded, session.Loaded piece loaded ∧
      ∀ ending final, (session.deliver [piece]).Runs env .read ending final ↔
        loaded.Runs env .read ending final := by
  obtain ⟨loaded, hloaded, hruns⟩ := exists_loaded_waiting env piece hidle hpiece hfits
  refine ⟨loaded, hloaded, fun ending final => ?_⟩
  have hiff := hruns [] ending final
  rwa [deliver_nil] at hiff

theorem requestLine_replies
    {session : Session} {client : HttpClient} {len : Int}
    (hhandler : session.client.evtHandler = .processRequestLine)
    (hcontent : session.client.readBuffer.content ≠ [])
    (hparse : session.client.parseRequestLine = some (len, client)) :
    session.Replies env code (.returned len (session.setClient client)) := by
  refine ⟨0, ?_⟩
  unfold handle processRequestLine process
  simp only [hhandler, fetch_nonempty hcontent, hparse]
  rfl

theorem requestLine_crashes
    {session : Session}
    (hhandler : session.client.evtHandler = .processRequestLine)
    (hcontent : session.client.readBuffer.content ≠ [])
    (hparse : session.client.parseRequestLine = none) :
    session.Replies env code (.crashed session) := by
  refine ⟨0, ?_⟩
  unfold handle processRequestLine process
  simp only [hhandler, fetch_nonempty hcontent, hparse]
  rfl

theorem Waiting.runs
    {session : Session}
    (hwaiting : session.Waiting) :
    session.Runs env code .done session := by
  exact runs_of_zero (requestLine_replies hwaiting.handler hwaiting.content
    (HttpClient.parseRequestLine_short hwaiting.noSpace))

theorem Idle.runs
    {session : Session}
    (hidle : session.Idle)
    (hagain : env.readEnd = .again) :
    ∃ final, session.Runs env .read .done final ∧ final.Idle ∧
      final.client = session.client ∧ final.passed = session.passed := by
  have hunfed : session.Unfed env .read := fun _ _ => .inl ⟨hidle.incoming, hagain⟩
  obtain ⟨hret, hclient, hincoming⟩ := fetch_unfed hunfed
  have hpassed := (session.fetch_frame env .read).2
  refine ⟨(session.fetch env .read).2, runs_of_zero ⟨0, ?_⟩, ⟨?_, ?_, ?_⟩, hclient, hpassed⟩
  · have hparse : session.client.parseRequestLine = some (0, session.client) :=
      HttpClient.parseRequestLine_short (by rw [hidle.content]; exact List.not_mem_nil)
    unfold handle processRequestLine process
    simp only [hidle.handler, hret, hclient, hparse]
    rw [← hclient]
    rfl
  · rw [hclient]
    exact hidle.handler
  · rw [hclient]
    exact hidle.content
  · rw [hincoming]
    exact hidle.incoming

end Session

/-- Methods with their spaces, and what follows the last one. -/
inductive Tokens : Bytes → Bytes → Prop
  | tail {tail : Bytes} (htail : space ∉ tail) : Tokens tail tail
  | method {method rest tail : Bytes} (hvalid : HttpMethod.ofText method ≠ .invalid)
      (hrest : Tokens rest tail) : Tokens (method ++ space :: rest) tail

theorem space_not_mem_method
    {text : Bytes}
    (hvalid : HttpMethod.ofText text ≠ .invalid) :
    space ∉ text := by
  rcases HttpMethod.cases_of_ofText hvalid with rfl | rfl | rfl | rfl | rfl <;> decide

theorem Tokens.method_inv
    {method rest tail : Bytes}
    (htokens : Tokens (method ++ space :: rest) tail)
    (hmethod : space ∉ method) :
    HttpMethod.ofText method ≠ .invalid ∧ Tokens rest tail := by
  generalize hbytes : method ++ space :: rest = bytes at htokens
  cases htokens with
  | tail htail =>
      subst hbytes
      exact absurd (List.mem_append_right _ List.mem_cons_self) htail
  | method hvalid hrest =>
      obtain ⟨rfl, rfl⟩ := append_cons_inj hmethod (space_not_mem_method hvalid) hbytes
      exact ⟨hvalid, hrest⟩

/-- The bytes left by a request line that was cut off after its method or after
its url. -/
def LeftOver (rest left : Bytes) : Prop :=
  left = rest ∨ ∃ url, rest = url ++ space :: left ∧ space ∉ url

namespace HttpClient

theorem parseTarget_clean
    {client : HttpClient} {stop : Nat} {url rest : Bytes} (len : Nat)
    (hend : client.readBuffer.getContentEnd ≤ stop)
    (hstop : stop ≤ client.readBuffer.memory.length)
    (hahead : client.readBuffer.ahead stop = url ++ space :: rest)
    (hurl : space ∉ url)
    (hmark : questionMark ∉ url ++ space :: rest)
    (hctrl : ¬ httpCtrl <:+: (client.readBuffer.consumeBuffer (url.length + 1)).ahead stop) :
    client.parseTarget stop len =
      some (((len + (url.length + 1) : Nat) : Int),
        (client.setRequest (client.request.setUrl url)).consumeBuffer (url.length + 1)) := by
  have hstart : client.readBuffer.getContentStart ≤ stop :=
    client.readBuffer.start_le_end.trans hend
  have hversion : ((client.setRequest (client.request.setUrl url)).consumeBuffer
      (url.length + 1)).parseVersion stop (len + (url.length + 1)) =
        (((len + (url.length + 1) : Nat) : Int),
          (client.setRequest (client.request.setUrl url)).consumeBuffer (url.length + 1)) :=
    parseVersion_short _ (HttpReadBuffer.start_consumeBuffer_le hend) hstop hctrl
  rw [parseTarget_eq len hstop hahead hurl, parseUrl_plain client.request hstart hstop hahead hmark]
  simp only [hversion]

theorem parseRequestLine_unfinished
    {client : HttpClient} {method rest : Bytes}
    (hcontent : client.readBuffer.content = method ++ space :: rest)
    (hvalid : HttpMethod.ofText method ≠ .invalid)
    (hrest : rest ≠ [])
    (hspace : space ∉ rest) :
    ∃ next : HttpClient,
      client.parseRequestLine = some (((method.length + 1 : Nat) : Int), next) ∧
      next.readBuffer.content = rest ∧
      next.evtHandler = client.evtHandler ∧
      next.readBuffer.size = client.readBuffer.size ∧
      next.readBuffer.window = client.readBuffer.window := by
  have hpos : 0 < rest.length := List.length_pos_iff.mpr hrest
  have hsize : client.readBuffer.curSize = method.length + (rest.length + 1) := by
    rw [← HttpReadBuffer.content_length, hcontent, List.length_append, List.length_cons]
  have hsplit : client.readBuffer.content = (method ++ [space]) ++ rest := by
    rw [hcontent, List.append_assoc, List.singleton_append]
  have hafter := HttpReadBuffer.content_consumeBuffer hsplit
  have hahead := HttpReadBuffer.ahead_consumeBuffer hsplit hrest
  rw [List.length_append, List.length_singleton] at hafter hahead
  have hwindow : (client.readBuffer.consumeBuffer (method.length + 1)).window =
      client.readBuffer.window :=
    HttpReadBuffer.window_consumeBuffer (by omega)
  rw [parseRequestLine_eq hcontent (space_not_mem_method hvalid), if_neg hvalid]
  refine ⟨_, parseTarget_short _ (HttpReadBuffer.start_consumeBuffer_le le_rfl)
    client.readBuffer.getContentEnd_le ?_, hafter, rfl, rfl, hwindow⟩
  change space ∉ (client.readBuffer.consumeBuffer (method.length + 1)).ahead
    client.readBuffer.getContentEnd
  rwa [hahead]

/-- In a clean window a method is consumed, perhaps with a url, and the client
still expects a request line. -/
theorem parseRequestLine_clean
    {client : HttpClient} {method rest : Bytes}
    (hcontent : client.readBuffer.content = method ++ space :: rest)
    (hvalid : HttpMethod.ofText method ≠ .invalid)
    (hclean : Clean client.readBuffer.window) :
    ∃ (len : Nat) (next : HttpClient) (left : Bytes),
      client.parseRequestLine = some ((len : Int), next) ∧ 0 < len ∧
      LeftOver rest left ∧ next.readBuffer.content = left ∧
      next.evtHandler = client.evtHandler ∧
      next.readBuffer.size = client.readBuffer.size ∧
      (left ≠ [] → next.readBuffer.window = client.readBuffer.window) := by
  have hmethod := space_not_mem_method hvalid
  have hsize : client.readBuffer.curSize = method.length + (rest.length + 1) := by
    rw [← HttpReadBuffer.content_length, hcontent, List.length_append, List.length_cons]
  have hsplit : client.readBuffer.content = (method ++ [space]) ++ rest := by
    rw [hcontent, List.append_assoc, List.singleton_append]
  have hafter : (client.readBuffer.consumeBuffer (method.length + 1)).content = rest := by
    have h := HttpReadBuffer.content_consumeBuffer hsplit
    rwa [List.length_append, List.length_singleton] at h
  have hend := client.readBuffer.getContentEnd_le
  have hend' : (client.readBuffer.consumeBuffer (method.length + 1)).getContentEnd ≤
      client.readBuffer.getContentEnd :=
    HttpReadBuffer.end_consumeBuffer_le le_rfl
  have hsuffix : rest <:+ client.readBuffer.window := by
    refine List.IsSuffix.trans ?_ client.readBuffer.content_suffix_window
    rw [hsplit]
    exact List.suffix_append _ _
  rw [parseRequestLine_eq hcontent hmethod, if_neg hvalid]
  by_cases hspace : space ∈ rest
  · obtain ⟨url, left, rfl, hurl⟩ := List.eq_append_cons_of_mem hspace
    have hahead : (client.readBuffer.consumeBuffer (method.length + 1)).ahead
        client.readBuffer.getContentEnd = url ++ space :: left := by
      have h := HttpReadBuffer.ahead_consumeBuffer hsplit (by simp)
      rwa [List.length_append, List.length_singleton] at h
    have hpair : (client.readBuffer.consumeBuffer (method.length + 1)).content =
        (url ++ [space]) ++ left := by
      rw [hafter, List.append_assoc, List.singleton_append]
    have hleft := HttpReadBuffer.content_consumeBuffer hpair
    have hcur : (client.readBuffer.consumeBuffer (method.length + 1)).curSize =
        url.length + (left.length + 1) := by
      rw [← HttpReadBuffer.content_length, hafter, List.length_append, List.length_cons]
    rw [List.length_append, List.length_singleton] at hleft
    rw [List.length_append, List.length_cons] at hsize
    have hctrl : ¬ httpCtrl <:+: ((client.readBuffer.consumeBuffer
        (method.length + 1)).consumeBuffer (url.length + 1)).ahead
          client.readBuffer.getContentEnd := by
      by_cases hnil : left = []
      · subst hnil
        rw [HttpReadBuffer.ahead_drained _ (by rw [hcur, List.length_nil])]
        exact hclean.2
      · have hpos : 0 < left.length := List.length_pos_iff.mpr hnil
        have h := HttpReadBuffer.ahead_consumeBuffer hpair hnil
        rw [List.length_append, List.length_singleton,
          HttpReadBuffer.getContentEnd_consumeBuffer (by omega)] at h
        rw [h]
        refine (clean_inside hclean (List.IsInfix.trans ?_ hsuffix.isInfix)).2
        exact ⟨url ++ [space], [], by simp⟩
    refine ⟨_, _, left, parseTarget_clean (method.length + 1) hend' hend hahead hurl
      (clean_inside hclean hsuffix.isInfix).1 hctrl, by omega, .inr ⟨url, rfl, hurl⟩, hleft,
      rfl, rfl, fun hnil => ?_⟩
    have hpos : 0 < left.length := List.length_pos_iff.mpr hnil
    have hfirst : (client.readBuffer.consumeBuffer (method.length + 1)).window =
        client.readBuffer.window :=
      HttpReadBuffer.window_consumeBuffer (by omega)
    have hsecond : ((client.readBuffer.consumeBuffer (method.length + 1)).consumeBuffer
        (url.length + 1)).window =
          (client.readBuffer.consumeBuffer (method.length + 1)).window :=
      HttpReadBuffer.window_consumeBuffer (by omega)
    exact hsecond.trans hfirst
  · by_cases hrest : rest = []
    · subst hrest
      have hdrained : ∀ sz, ((client.readBuffer.consumeBuffer
          (method.length + 1)).consumeBuffer sz).ahead client.readBuffer.getContentEnd =
            client.readBuffer.window := by
        intro sz
        refine HttpReadBuffer.ahead_drained _ ?_
        rw [← HttpReadBuffer.content_length, hafter]
        exact Nat.zero_le _
      have hahead : (client.readBuffer.consumeBuffer (method.length + 1)).ahead
          client.readBuffer.getContentEnd = client.readBuffer.window :=
        HttpReadBuffer.ahead_drained _ (by rw [hsize, List.length_nil])
      have hmem : space ∈ client.readBuffer.window :=
        client.readBuffer.content_suffix_window.subset (by rw [hcontent]; simp)
      obtain ⟨url, others, hwindow, hurl⟩ := List.eq_append_cons_of_mem hmem
      refine ⟨_, _, [], parseTarget_clean (method.length + 1) hend' hend
        (hahead.trans hwindow) hurl (hwindow ▸ hclean.1) ?_, by omega, .inl rfl, ?_, rfl, rfl,
        fun hnil => absurd rfl hnil⟩
      · change ¬ httpCtrl <:+: ((client.readBuffer.consumeBuffer
          (method.length + 1)).consumeBuffer (url.length + 1)).ahead
            client.readBuffer.getContentEnd
        rw [hdrained]
        exact hclean.2
      · refine HttpReadBuffer.content_drained ?_
        change (client.readBuffer.consumeBuffer (method.length + 1)).curSize ≤ url.length + 1
        rw [← HttpReadBuffer.content_length, hafter]
        exact Nat.zero_le _
    · obtain ⟨next, hparse, hnext, hsame, hkeep, hwindow⟩ :=
        parseRequestLine_unfinished hcontent hvalid hrest hspace
      rw [parseRequestLine_eq hcontent hmethod, if_neg hvalid] at hparse
      exact ⟨_, next, rest, hparse, Nat.succ_pos _, .inl rfl, hnext, hsame, hkeep,
        fun _ => hwindow⟩

end HttpClient

theorem Tokens.tail_eq_nil
    {tail : Bytes}
    (htokens : Tokens [] tail) :
    tail = [] := by
  generalize hbytes : ([] : Bytes) = bytes at htokens
  cases htokens with
  | tail _ => rfl
  | method _ _ => simp at hbytes

theorem LeftOver.tokens
    {rest left tail : Bytes}
    (hleft : LeftOver rest left)
    (htokens : Tokens rest tail) :
    Tokens left tail := by
  rcases hleft with rfl | ⟨url, rfl, hurl⟩
  · exact htokens
  · exact (htokens.method_inv hurl).2

theorem LeftOver.length_le
    {rest left : Bytes}
    (hleft : LeftOver rest left) :
    left.length ≤ rest.length := by
  rcases hleft with rfl | ⟨url, rfl, -⟩
  · exact le_rfl
  · rw [List.length_append, List.length_cons]
    omega

namespace Session

variable {env : Environment}

/-- Nothing is passed on and nothing is closed; the client is idle again, or
waits with bytes that it will not add to. -/
def Settles (env : Environment) (session : Session) (drained : Prop) : Prop :=
  ∃ final, session.Runs env .read .done final ∧
    final.passed = session.passed ∧
    final.client.readBuffer.size = session.client.readBuffer.size ∧
    (drained ∧ final.Idle ∨ ¬ drained ∧ final.Waiting)

theorem settles_tokens
    {session : Session} {tail : Bytes}
    (hagain : env.readEnd = .again)
    (hhandler : session.client.evtHandler = .processRequestLine)
    (hincoming : session.incoming = [])
    (htokens : Tokens session.client.readBuffer.content tail)
    (hclean : session.client.readBuffer.content ≠ [] →
      Clean session.client.readBuffer.window) :
    session.Settles env (tail = []) := by
  generalize hlength : session.client.readBuffer.content.length = length
  induction length using Nat.strong_induction_on generalizing session with
  | _ length ih =>
      by_cases hempty : session.client.readBuffer.content = []
      · have hidle : session.Idle := ⟨hhandler, hempty, hincoming⟩
        obtain ⟨final, hruns, hfinal, hclient, hpassed⟩ := hidle.runs hagain
        have htail : tail = [] := (hempty ▸ htokens).tail_eq_nil
        exact ⟨final, hruns, hpassed, by rw [hclient], .inl ⟨htail, hfinal⟩⟩
      · generalize hcontent : session.client.readBuffer.content = content at htokens
        cases htokens with
        | tail hspace =>
            have hwaiting : session.Waiting := ⟨hhandler, hempty, by rwa [hcontent]⟩
            refine ⟨session, hwaiting.runs, rfl, rfl, .inr ⟨?_, hwaiting⟩⟩
            rwa [← hcontent]
        | @method method rest tail hvalid hrest =>
            obtain ⟨len, next, left, hparse, hpos, hleft, hnext, hsame, hsize, hwindow⟩ :=
              HttpClient.parseRequestLine_clean hcontent hvalid (hclean hempty)
            have hcontinues : session.Continues env .read (session.setClient next) :=
              ⟨len, by omega, requestLine_replies hhandler hempty hparse⟩
            have hless : left.length < length := by
              have hle := hleft.length_le
              rw [← hlength, hcontent, List.length_append, List.length_cons]
              omega
            have hlater : (session.setClient next).Settles env (tail = []) := by
              refine ih left.length hless (hsame.trans hhandler) hincoming ?_ ?_ ?_
              · change Tokens next.readBuffer.content _
                rw [hnext]
                exact hleft.tokens hrest
              · change next.readBuffer.content ≠ [] → Clean next.readBuffer.window
                rw [hnext]
                intro hne
                rw [hwindow hne]
                exact hclean hempty
              · change next.readBuffer.content.length = _
                rw [hnext]
            obtain ⟨final, hruns, hpassed, hsize', hfinal⟩ := hlater
            exact ⟨final, (hcontinues.runs_iff _ _).mpr hruns, hpassed, hsize'.trans hsize, hfinal⟩

theorem settles_piece
    {session : Session} {piece tail : Bytes}
    (hagain : env.readEnd = .again)
    (hhandler : session.client.evtHandler = .processRequestLine)
    (hincoming : session.incoming = [])
    (hcontent : session.client.readBuffer.content = piece)
    (hwindow : session.client.readBuffer.window = piece)
    (hpiece : piece ≠ [])
    (htokens : Tokens piece tail)
    (hclean : ∀ method url rest, piece = method ++ space :: (url ++ space :: rest) →
      space ∉ method → space ∉ url → Clean piece) :
    session.Settles env (tail = []) := by
  have hwhole : Clean piece → session.Settles env (tail = []) := by
    intro h
    exact settles_tokens hagain hhandler hincoming (hcontent ▸ htokens) (fun _ => hwindow ▸ h)
  cases htokens with
  | tail hspace =>
      have hwaiting : session.Waiting := ⟨hhandler, by rwa [hcontent], by rwa [hcontent]⟩
      exact ⟨session, hwaiting.runs, rfl, rfl, .inr ⟨hpiece, hwaiting⟩⟩
  | @method method rest tail hvalid hrest =>
      by_cases hspace : space ∈ rest
      · obtain ⟨url, others, rfl, hurl⟩ := List.eq_append_cons_of_mem hspace
        exact hwhole (hclean method url others rfl (space_not_mem_method hvalid) hurl)
      · by_cases hnil : rest = []
        · subst hnil
          exact hwhole (clean_append (clean_method hvalid) ⟨List.not_mem_nil, by decide⟩)
        · have htail : tail = rest := by
            cases hrest with
            | tail _ => rfl
            | method _ _ => exact absurd (List.mem_append_right _ List.mem_cons_self) hspace
          obtain ⟨next, hparse, hnext, hsame, hkeep, -⟩ :=
            HttpClient.parseRequestLine_unfinished hcontent hvalid hnil hspace
          have hcontinues : session.Continues env .read (session.setClient next) :=
            ⟨_, by omega, requestLine_replies hhandler (by rwa [hcontent]) hparse⟩
          have hwaiting : (session.setClient next).Waiting :=
            ⟨hsame.trans hhandler, fun h => hnil (hnext.symm.trans h), fun h => hspace (hnext ▸ h)⟩
          refine ⟨session.setClient next, (hcontinues.runs_iff _ _).mpr hwaiting.runs, rfl, hkeep,
            .inr ⟨?_, hwaiting⟩⟩
          rwa [htail]

theorem closes_invalid
    (env : Environment) {session : Session} {method rest : Bytes}
    (hhandler : session.client.evtHandler = .processRequestLine)
    (hcontent : session.client.readBuffer.content = method ++ space :: rest)
    (hmethod : space ∉ method)
    (hinvalid : HttpMethod.ofText method = .invalid) :
    ∃ final, session.Runs env .read .closed final ∧ final.passed = session.passed := by
  have hparse := HttpClient.parseRequestLine_eq hcontent hmethod
  rw [if_pos hinvalid] at hparse
  exact ⟨_, runs_of_negative (requestLine_replies hhandler (by simp [hcontent]) hparse)
    (by decide), rfl⟩

theorem crashes_mark
    {session : Session} {method url rest : Bytes}
    (hhandler : session.client.evtHandler = .processRequestLine)
    (hcontent : session.client.readBuffer.content =
      method ++ space :: (url ++ space :: rest))
    (hvalid : HttpMethod.ofText method ≠ .invalid)
    (hspace : space ∉ url)
    (hurl : questionMark ∉ url)
    (hmark : questionMark ∈ rest) :
    session.Runs env .read .crashed session := by
  obtain ⟨target, htarget, hparse⟩ := HttpClient.parseRequestLine_target hcontent
    (space_not_mem_method hvalid) hvalid (by simp)
  have hthrows := HttpClient.parseUrl_throws target.request htarget.stop_le
    htarget.ahead hurl hmark
  rw [HttpClient.parseTarget_eq _ htarget.stop_le htarget.ahead hspace, hthrows] at hparse
  exact runs_of_crashed (requestLine_crashes hhandler (by simp [hcontent]) hparse)

/-- A request line that ends with the piece: its version is refused, or the
header is awaited for ever. -/
theorem version_ends_piece
    {session : Session} {method url version : Bytes}
    (hagain : env.readEnd = .again)
    (hhandler : session.client.evtHandler = .processRequestLine)
    (hincoming : session.incoming = [])
    (hcontent : session.client.readBuffer.content =
      method ++ space :: (url ++ space :: (version ++ httpCtrl)))
    (hvalid : HttpMethod.ofText method ≠ .invalid)
    (hspace : space ∉ url)
    (hmark : questionMark ∉ url ++ space :: (version ++ httpCtrl))
    (hversion : ¬ httpCtrl <:+: version) :
    (∃ final, session.Runs env .read .closed final) ∨ ¬ session.Terminates env .read := by
  obtain ⟨target, htarget, hparse⟩ := HttpClient.parseRequestLine_target hcontent
    (space_not_mem_method hvalid) hvalid (by simp)
  have hplain := HttpClient.parseUrl_plain target.request
    (target.readBuffer.start_le_end.trans htarget.stop.le) htarget.stop_le htarget.ahead hmark
  obtain ⟨next, hnext, htail⟩ := htarget.parseTarget (method.length + 1) hspace
    (by simp [httpCtrl]) hplain
  have hahead : next.readBuffer.ahead session.client.readBuffer.getContentEnd =
      version ++ httpCtrl ++ [] := by
    rw [hnext.ahead, List.append_nil]
  rw [htail, HttpClient.parseVersion_eq _ hnext.stop_le hahead hversion] at hparse
  have hne : session.client.readBuffer.content ≠ [] := by simp [hcontent]
  split_ifs at hparse with hlength hinvalid
  · exact .inl ⟨_, runs_of_negative (requestLine_replies hhandler hne hparse) (by decide)⟩
  · exact .inl ⟨_, runs_of_negative (requestLine_replies hhandler hne hparse) (by decide)⟩
  · right
    have hcontinues : session.Continues env .read (session.setClient _) :=
      ⟨_, by omega, requestLine_replies hhandler hne hparse⟩
    rw [hcontinues.terminates_iff]
    have hempty : (next.readBuffer.consumeBuffer 10).content = [] := by
      refine HttpReadBuffer.content_drained ?_
      rw [← HttpReadBuffer.content_length, hnext.content, List.length_append,
        not_not.mp hlength]
      rfl
    refine not_terminates_of_stalled ⟨rfl, ?_, fun _ _ => .inl ⟨hincoming, hagain⟩⟩
    change ¬ httpCtrl <:+: (next.readBuffer.consumeBuffer 10).content
    rw [hempty]
    decide

end Session

/-! ## Streams -/

/-- Non-empty pieces that fit the read buffer and make up the stream. -/
structure IsCut (size : Nat) (stream : Bytes) (cut : List Bytes) : Prop where
  flatten : cut.flatten = stream
  nonempty : ∀ piece ∈ cut, piece ≠ []
  fits : ∀ piece ∈ cut, piece.length ≤ size

/-- The streams of which every cut is swallowed.  Each token that a space ends is
a method, as long as the reads reach it, and where a read takes in two of them it
takes in nothing that would end the url or the line. -/
inductive Quiet (size : Nat) : Bytes → Prop
  | unread {stream : Bytes} (hspace : space ∉ stream.take size) : Quiet size stream
  | method {method rest : Bytes} (hvalid : HttpMethod.ofText method ≠ .invalid)
      (hrest : Quiet size rest)
      (hclean : ∀ url tail, rest = url ++ space :: tail → space ∉ url →
        method.length + url.length + 2 ≤ size →
        Clean (tail.take (size - (method.length + url.length + 2)))) :
      Quiet size (method ++ space :: rest)

namespace Session

/-- The pieces arrive, one event each, until the connection ends. -/
inductive Feeds (env : Environment) : Session → List Bytes → Ending → Session → Prop
  | nil {session : Session} : Feeds env session [] .done session
  | stop {session final : Session} {piece : Bytes} {rest : List Bytes} {ending : Ending}
      (hruns : (session.deliver [piece]).Runs env .read ending final) (hending : ending ≠ .done) :
      Feeds env session (piece :: rest) ending final
  | next {session next final : Session} {piece : Bytes} {rest : List Bytes} {ending : Ending}
      (hruns : (session.deliver [piece]).Runs env .read .done next)
      (hfeeds : Feeds env next rest ending final) :
      Feeds env session (piece :: rest) ending final

/-- The requests passed on and how the connection was left. -/
def Produces (env : Environment) (session : Session) (cut : List Bytes)
    (requests : List RequestView) (ending : Ending) : Prop :=
  ∃ final, session.Feeds env cut ending final ∧ final.passed.map HttpRequest.view = requests

def SegmentationIndependent (env : Environment) (session : Session) (stream : Bytes) : Prop :=
  ∀ cut₁ cut₂, IsCut session.client.readBuffer.size stream cut₁ →
    IsCut session.client.readBuffer.size stream cut₂ →
    ∀ requests ending, session.Produces env cut₁ requests ending ↔
      session.Produces env cut₂ requests ending

variable {env : Environment}

theorem Feeds.unique
    {session first second : Session} {cut : List Bytes} {e₁ e₂ : Ending}
    (hfirst : session.Feeds env cut e₁ first)
    (hsecond : session.Feeds env cut e₂ second) :
    e₁ = e₂ ∧ first = second := by
  induction hfirst with
  | nil =>
      cases hsecond
      exact ⟨rfl, rfl⟩
  | stop hruns hending =>
      cases hsecond with
      | stop hruns' _ => exact hruns.unique hruns'
      | next hruns' _ => exact absurd (hruns.unique hruns').1 hending
  | next hruns _ ih =>
      cases hsecond with
      | stop hruns' hending => exact absurd (hruns.unique hruns').1.symm hending
      | next hruns' hfeeds =>
          obtain ⟨-, rfl⟩ := hruns.unique hruns'
          exact ih hfeeds

theorem Produces.unique
    {session : Session} {cut : List Bytes} {r₁ r₂ : List RequestView} {e₁ e₂ : Ending}
    (hfirst : session.Produces env cut r₁ e₁)
    (hsecond : session.Produces env cut r₂ e₂) :
    r₁ = r₂ ∧ e₁ = e₂ := by
  obtain ⟨first, hfeeds₁, rfl⟩ := hfirst
  obtain ⟨second, hfeeds₂, rfl⟩ := hsecond
  obtain ⟨rfl, rfl⟩ := hfeeds₁.unique hfeeds₂
  exact ⟨rfl, rfl⟩

theorem segmentationIndependent_of_produces
    {session : Session} {stream : Bytes} (requests : List RequestView) (ending : Ending)
    (hproduces : ∀ cut, IsCut session.client.readBuffer.size stream cut →
      session.Produces env cut requests ending) :
    session.SegmentationIndependent env stream := by
  intro cut₁ cut₂ hcut₁ hcut₂ requests' ending'
  have hfirst := hproduces cut₁ hcut₁
  have hsecond := hproduces cut₂ hcut₂
  constructor
  · intro h
    obtain ⟨rfl, rfl⟩ := h.unique hfirst
    exact hsecond
  · intro h
    obtain ⟨rfl, rfl⟩ := h.unique hsecond
    exact hfirst

theorem Waiting.feeds
    (env : Environment) {session : Session}
    (hwaiting : session.Waiting) (cut : List Bytes) :
    ∃ final, session.Feeds env cut .done final ∧ final.passed = session.passed := by
  induction cut generalizing session with
  | nil => exact ⟨session, .nil, rfl⟩
  | cons piece rest ih =>
      have hnext : (session.deliver [piece]).Waiting :=
        ⟨hwaiting.handler, hwaiting.content, hwaiting.noSpace⟩
      obtain ⟨final, hfeeds, hpassed⟩ := ih hnext
      exact ⟨final, .next hnext.runs hfeeds, hpassed⟩

end Session

theorem IsCut.tail
    {size : Nat} {stream piece : Bytes} {rest : List Bytes}
    (hcut : IsCut size stream (piece :: rest)) :
    IsCut size rest.flatten rest :=
  ⟨rfl, fun p hp => hcut.nonempty p (List.mem_cons_of_mem _ hp),
    fun p hp => hcut.fits p (List.mem_cons_of_mem _ hp)⟩

theorem IsCut.cons
    {size : Nat} {stream piece : Bytes} {rest : List Bytes}
    (hcut : IsCut size stream rest)
    (hpiece : piece ≠ [])
    (hfits : piece.length ≤ size) :
    IsCut size (piece ++ stream) (piece :: rest) := by
  refine ⟨by rw [List.flatten_cons, hcut.flatten], ?_, ?_⟩
  · intro p hp
    rcases List.mem_cons.mp hp with rfl | hrest
    · exact hpiece
    · exact hcut.nonempty p hrest
  · intro p hp
    rcases List.mem_cons.mp hp with rfl | hrest
    · exact hfits
    · exact hcut.fits p hrest

theorem isCut_bytes
    {size : Nat} (stream : Bytes)
    (hsize : 0 < size) :
    IsCut size stream (stream.map ([·])) := by
  refine ⟨by rw [← List.flatMap_def, List.flatMap_singleton'], ?_, ?_⟩
  · intro piece hpiece
    obtain ⟨byte, -, rfl⟩ := List.mem_map.mp hpiece
    exact nofun
  · intro piece hpiece
    obtain ⟨byte, -, rfl⟩ := List.mem_map.mp hpiece
    exact hsize

/-! ## Quiet streams -/

namespace Quiet

variable {size : Nat}

theorem method_inv
    {method rest : Bytes}
    (hquiet : Quiet size (method ++ space :: rest))
    (hmethod : space ∉ method)
    (hfits : method.length + 1 ≤ size) :
    HttpMethod.ofText method ≠ .invalid ∧ Quiet size rest ∧
      ∀ url tail, rest = url ++ space :: tail → space ∉ url →
        method.length + url.length + 2 ≤ size →
        Clean (tail.take (size - (method.length + url.length + 2))) := by
  generalize hstream : method ++ space :: rest = stream at hquiet
  cases hquiet with
  | unread hspace =>
      subst hstream
      refine absurd ?_ hspace
      have htake : (method ++ space :: rest).take size =
          method ++ space :: rest.take (size - (method.length + 1)) := by
        rw [List.take_append, List.take_of_length_le (by omega),
          show size - method.length = (size - (method.length + 1)) + 1 by omega,
          List.take_succ_cons]
      rw [htake]
      simp
  | method hvalid hrest hclean =>
      obtain ⟨rfl, rfl⟩ := append_cons_inj hmethod (space_not_mem_method hvalid) hstream
      exact ⟨hvalid, hrest, hclean⟩

theorem tokens
    {piece rest : Bytes}
    (hquiet : Quiet size (piece ++ rest))
    (hfits : piece.length ≤ size) :
    ∃ tail, Tokens piece tail ∧ (tail = [] → Quiet size rest) := by
  generalize hlength : piece.length = length
  induction length using Nat.strong_induction_on generalizing piece with
  | _ length ih =>
      by_cases hspace : space ∈ piece
      · obtain ⟨method, others, rfl, hmethod⟩ := List.eq_append_cons_of_mem hspace
        rw [List.length_append, List.length_cons] at hfits hlength
        rw [List.append_assoc, List.cons_append] at hquiet
        obtain ⟨hvalid, hothers, -⟩ := hquiet.method_inv hmethod (by omega)
        obtain ⟨tail, htokens, htail⟩ := ih others.length (by omega) hothers (by omega) rfl
        exact ⟨tail, .method hvalid htokens, htail⟩
      · refine ⟨piece, .tail hspace, fun hnil => ?_⟩
        rwa [hnil, List.nil_append] at hquiet

theorem clean
    {method url tail rest : Bytes}
    (hquiet : Quiet size (method ++ space :: (url ++ space :: tail) ++ rest))
    (hfits : (method ++ space :: (url ++ space :: tail)).length ≤ size)
    (hmethod : space ∉ method)
    (hurl : space ∉ url) :
    Clean (method ++ space :: (url ++ space :: tail)) := by
  simp only [List.length_append, List.length_cons] at hfits
  rw [List.append_assoc, List.cons_append, List.append_assoc, List.cons_append] at hquiet
  obtain ⟨hvalid, hrest, hclean⟩ := hquiet.method_inv hmethod (by omega)
  obtain ⟨hvalid', -, -⟩ := hrest.method_inv hurl (by omega)
  have htail : Clean tail := by
    refine clean_inside (hclean url (tail ++ rest) rfl hurl (by omega)) ?_
    rw [List.take_append, List.take_of_length_le (by omega)]
    exact (List.prefix_append _ _).isInfix
  exact clean_append (clean_method hvalid) (clean_append (clean_method hvalid') htail)

end Quiet

namespace Session

variable {env : Environment}

theorem Idle.settles
    {session : Session} {piece rest : Bytes}
    (hidle : session.Idle)
    (hagain : env.readEnd = .again)
    (hpiece : piece ≠ [])
    (hfits : piece.length ≤ session.client.readBuffer.size)
    (hquiet : Quiet session.client.readBuffer.size (piece ++ rest)) :
    ∃ final, (session.deliver [piece]).Runs env .read .done final ∧
      final.passed = session.passed ∧
      final.client.readBuffer.size = session.client.readBuffer.size ∧
      (final.Waiting ∨ final.Idle ∧ Quiet session.client.readBuffer.size rest) := by
  obtain ⟨loaded, hloaded, hruns⟩ := exists_loaded env piece hidle hpiece hfits
  obtain ⟨tail, htokens, htail⟩ := hquiet.tokens hfits
  have hsettles : loaded.Settles env (tail = []) := by
    refine settles_piece hagain ?_ hloaded.incoming hloaded.content hloaded.window hpiece htokens ?_
    · rw [hloaded.client]
      exact hidle.handler
    · rintro method url others rfl hmethod hurl
      exact hquiet.clean hfits hmethod hurl
  obtain ⟨final, hfinal, hpassed, hsize, hnext⟩ := hsettles
  refine ⟨final, (hruns _ _).mpr hfinal, hpassed.trans hloaded.passed,
    hsize.trans hloaded.size, ?_⟩
  rcases hnext with ⟨hdrained, hnext⟩ | ⟨-, hnext⟩
  · exact .inr ⟨hnext, htail hdrained⟩
  · exact .inl hnext

theorem Idle.feeds
    {session : Session} {cut : List Bytes} {stream : Bytes}
    (hidle : session.Idle)
    (hagain : env.readEnd = .again)
    (hquiet : Quiet session.client.readBuffer.size stream)
    (hcut : IsCut session.client.readBuffer.size stream cut) :
    ∃ final, session.Feeds env cut .done final ∧ final.passed = session.passed := by
  induction cut generalizing session stream with
  | nil => exact ⟨session, .nil, rfl⟩
  | cons piece rest ih =>
      have hstream := hcut.flatten
      rw [List.flatten_cons] at hstream
      rw [← hstream] at hquiet
      obtain ⟨next, hruns, hpassed, hsize, hnext⟩ := hidle.settles hagain
        (hcut.nonempty piece List.mem_cons_self) (hcut.fits piece List.mem_cons_self) hquiet
      have hlater : ∃ final, next.Feeds env rest .done final ∧ final.passed = next.passed := by
        rcases hnext with hwaiting | ⟨hnext, hrest⟩
        · exact Waiting.feeds env hwaiting rest
        · exact ih hnext (hsize ▸ hrest) (hsize ▸ hcut.tail)
      obtain ⟨final, hfeeds, hfinal⟩ := hlater
      exact ⟨final, .next hruns hfeeds, hfinal.trans hpassed⟩

/-- Every cut leaves the connection open and passes nothing on. -/
def Swallows (env : Environment) (session : Session) (stream : Bytes) : Prop :=
  ∀ cut, IsCut session.client.readBuffer.size stream cut →
    ∃ final, session.Feeds env cut .done final

theorem Swallows.step
    {session next : Session} {piece rest : Bytes}
    (hswallows : session.Swallows env (piece ++ rest))
    (hpiece : piece ≠ [])
    (hfits : piece.length ≤ session.client.readBuffer.size)
    (hsize : next.client.readBuffer.size = session.client.readBuffer.size)
    (hruns : (session.deliver [piece]).Runs env .read .done next) :
    next.Swallows env rest := by
  intro cut hcut
  rw [hsize] at hcut
  obtain ⟨final, hfeeds⟩ := hswallows (piece :: cut) (hcut.cons hpiece hfits)
  cases hfeeds with
  | stop _ hending => exact absurd rfl hending
  | next hruns' hfeeds =>
      obtain ⟨-, rfl⟩ := hruns.unique hruns'
      exact ⟨final, hfeeds⟩

theorem Swallows.runs
    {session : Session} {piece rest : Bytes}
    (hswallows : session.Swallows env (piece ++ rest))
    (hpiece : piece ≠ [])
    (hfits : piece.length ≤ session.client.readBuffer.size) :
    ∃ next, (session.deliver [piece]).Runs env .read .done next := by
  have hpos : 0 < piece.length := List.length_pos_iff.mpr hpiece
  obtain ⟨final, hfeeds⟩ := hswallows _ ((isCut_bytes rest (by omega)).cons hpiece hfits)
  cases hfeeds with
  | stop _ hending => exact absurd rfl hending
  | next hruns _ => exact ⟨_, hruns⟩

theorem Idle.takes_method
    {session : Session} {method : Bytes}
    (hidle : session.Idle)
    (hagain : env.readEnd = .again)
    (hvalid : HttpMethod.ofText method ≠ .invalid)
    (hfits : method.length + 1 ≤ session.client.readBuffer.size) :
    ∃ final, (session.deliver [method ++ [space]]).Runs env .read .done final ∧ final.Idle ∧
      final.client.readBuffer.size = session.client.readBuffer.size := by
  obtain ⟨loaded, hloaded, hruns⟩ := exists_loaded env (method ++ [space]) hidle
    (by simp) (by simpa using hfits)
  have htokens : Tokens (method ++ [space]) [] := .method hvalid (.tail List.not_mem_nil)
  have hclean : Clean (method ++ [space]) :=
    clean_append (clean_method hvalid) ⟨List.not_mem_nil, by decide⟩
  obtain ⟨final, hfinal, -, hsize, ⟨-, hnext⟩ | ⟨habsurd, -⟩⟩ := settles_piece hagain
    (by rw [hloaded.client]; exact hidle.handler) hloaded.incoming hloaded.content
    hloaded.window (by simp) htokens (fun _ _ _ _ _ _ => hclean)
  · exact ⟨final, (hruns _ _).mpr hfinal, hnext, hsize.trans hloaded.size⟩
  · exact absurd rfl habsurd

theorem Swallows.not_crashed
    {session : Session} {method url window rest : Bytes}
    (hidle : session.Idle)
    (hswallows : session.Swallows env
      ((method ++ space :: (url ++ space :: window)) ++ rest))
    (hfits : (method ++ space :: (url ++ space :: window)).length ≤
      session.client.readBuffer.size)
    (hvalid : HttpMethod.ofText method ≠ .invalid)
    (hvalid' : HttpMethod.ofText url ≠ .invalid) :
    questionMark ∉ window := by
  intro hmark
  obtain ⟨next, hnext⟩ := hswallows.runs (by simp) hfits
  obtain ⟨loaded, hloaded, hruns⟩ := exists_loaded env
    (method ++ space :: (url ++ space :: window)) hidle (by simp) hfits
  have hcrash : loaded.Runs env .read .crashed loaded :=
    crashes_mark (by rw [hloaded.client]; exact hidle.handler) hloaded.content hvalid
      (space_not_mem_method hvalid') (clean_method hvalid').1 hmark
  exact absurd (((hruns _ _).mp hnext).unique hcrash).1 (by decide)

theorem Swallows.not_ended
    {session : Session} {method url version : Bytes} (rest : Bytes)
    (hidle : session.Idle)
    (hagain : env.readEnd = .again)
    (hswallows : session.Swallows env
      ((method ++ space :: (url ++ space :: (version ++ httpCtrl))) ++ rest))
    (hfits : (method ++ space :: (url ++ space :: (version ++ httpCtrl))).length ≤
      session.client.readBuffer.size)
    (hvalid : HttpMethod.ofText method ≠ .invalid)
    (hvalid' : HttpMethod.ofText url ≠ .invalid)
    (hversion : ¬ httpCtrl <:+: version) :
    False := by
  obtain ⟨next, hnext⟩ := hswallows.runs (by simp) hfits
  have hmark := hswallows.not_crashed hidle hfits hvalid hvalid'
  obtain ⟨loaded, hloaded, hruns⟩ := exists_loaded env
    (method ++ space :: (url ++ space :: (version ++ httpCtrl))) hidle (by simp) hfits
  have hdone := (hruns _ _).mp hnext
  have hplain : questionMark ∉ url ++ space :: (version ++ httpCtrl) := by
    rw [List.mem_append, List.mem_cons, not_or, not_or]
    exact ⟨(clean_method hvalid').1, by decide, hmark⟩
  rcases version_ends_piece hagain (by rw [hloaded.client]; exact hidle.handler)
    hloaded.incoming hloaded.content hvalid (space_not_mem_method hvalid') hplain hversion with
    ⟨final, hclosed⟩ | hspins
  · exact absurd (hdone.unique hclosed).1 (by decide)
  · exact hspins ⟨_, _, hdone⟩

theorem Swallows.quiet
    {session : Session} {stream : Bytes}
    (hidle : session.Idle)
    (hagain : env.readEnd = .again)
    (hswallows : session.Swallows env stream) :
    Quiet session.client.readBuffer.size stream := by
  generalize hlength : stream.length = length
  induction length using Nat.strong_induction_on generalizing session stream with
  | _ length ih =>
      by_cases hspace : space ∈ stream.take session.client.readBuffer.size
      swap
      · exact .unread hspace
      obtain ⟨method, others, htake, hmethod⟩ := List.eq_append_cons_of_mem hspace
      have hfits : method.length + 1 ≤ session.client.readBuffer.size := by
        have hlen := congrArg List.length htake
        rw [List.length_take, List.length_append, List.length_cons] at hlen
        omega
      obtain ⟨rest, rfl⟩ : ∃ rest, stream = method ++ space :: rest := by
        refine ⟨others ++ stream.drop session.client.readBuffer.size, ?_⟩
        rw [← List.cons_append, ← List.append_assoc, ← htake, List.take_append_drop]
      have hsplit : method ++ space :: rest = (method ++ [space]) ++ rest := by
        rw [List.append_assoc, List.singleton_append]
      rw [List.length_append, List.length_cons] at hlength
      rw [hsplit] at hswallows
      have hvalid : HttpMethod.ofText method ≠ .invalid := by
        intro hinvalid
        obtain ⟨next, hnext⟩ := hswallows.runs (by simp) (by simpa using hfits)
        obtain ⟨loaded, hloaded, hruns⟩ := exists_loaded env (method ++ [space]) hidle
          (by simp) (by simpa using hfits)
        obtain ⟨final, hclosed, -⟩ := closes_invalid env
          (by rw [hloaded.client]; exact hidle.handler) hloaded.content hmethod hinvalid
        exact absurd (((hruns _ _).mp hnext).unique hclosed).1 (by decide)
      obtain ⟨next, hnext, hidle', hsize⟩ := hidle.takes_method hagain hvalid hfits
      have hrest : Quiet session.client.readBuffer.size rest := by
        rw [← hsize]
        exact ih rest.length (by omega) hidle'
          (hswallows.step (by simp) (by simpa using hfits) hsize hnext) rfl
      refine .method hvalid hrest ?_
      rintro url tail rfl hurl hroom
      have hvalid' := (hrest.method_inv hurl (by omega)).1
      generalize hroomLeft : session.client.readBuffer.size - (method.length + url.length + 2) =
        room
      have hpiece : (method ++ [space]) ++ (url ++ space :: tail) =
          (method ++ space :: (url ++ space :: tail.take room)) ++ tail.drop room := by
        simp
      have hlen : (method ++ space :: (url ++ space :: tail.take room)).length ≤
          session.client.readBuffer.size := by
        simp only [List.length_append, List.length_cons, List.length_take]
        omega
      refine ⟨(hpiece ▸ hswallows).not_crashed hidle hlen hvalid hvalid', fun hctrl => ?_⟩
      obtain ⟨version, left, heq, hversion⟩ := exists_line hctrl
      rw [heq] at hlen hpiece
      refine Swallows.not_ended (left ++ tail.drop room) hidle hagain ?_ ?_ hvalid hvalid'
        hversion
      · convert hswallows using 1
        rw [hpiece]
        simp
      · simp only [List.length_append, List.length_cons] at hlen ⊢
        omega

theorem idle_connect (env : Environment) (client : HttpClient) :
    (connect env client).Idle :=
  ⟨rfl, client.readBuffer.content_resetBuffer, rfl⟩

theorem Idle.feeds_bytes
    (env : Environment) {session : Session} {byte : UInt8} {stream : Bytes}
    (hidle : session.Idle)
    (hsize : 0 < session.client.readBuffer.size)
    (hbyte : byte ≠ space) :
    ∃ final, session.Feeds env ((byte :: stream).map ([·])) .done final ∧
      final.passed = session.passed := by
  have hspace : space ∉ [byte] := by
    simpa using hbyte.symm
  obtain ⟨loaded, hloaded, hruns⟩ := exists_loaded env [byte] hidle (by simp) hsize
  have hwaiting : loaded.Waiting := by
    refine ⟨?_, ?_, ?_⟩
    · rw [hloaded.client]
      exact hidle.handler
    · rw [hloaded.content]
      exact nofun
    · rwa [hloaded.content]
  obtain ⟨final, hfeeds, hpassed⟩ := Waiting.feeds env hwaiting (stream.map ([·]))
  exact ⟨final, .next ((hruns _ _).mpr hwaiting.runs) hfeeds, hpassed.trans hloaded.passed⟩

theorem Idle.feeds_space
    (env : Environment) {session : Session} {stream : Bytes} {cut : List Bytes}
    (hidle : session.Idle)
    (hcut : IsCut session.client.readBuffer.size (space :: stream) cut) :
    ∃ final, session.Feeds env cut .closed final ∧ final.passed = session.passed := by
  cases cut with
  | nil => exact absurd hcut.flatten nofun
  | cons piece rest =>
      have hpiece := hcut.nonempty piece List.mem_cons_self
      have hflatten := hcut.flatten
      obtain ⟨loaded, hloaded, hruns⟩ := exists_loaded env piece hidle hpiece
        (hcut.fits piece List.mem_cons_self)
      cases piece with
      | nil => exact absurd rfl hpiece
      | cons byte others =>
          rw [List.flatten_cons, List.cons_append] at hflatten
          injection hflatten with hbyte _
          subst hbyte
          obtain ⟨final, hclosed, hpassed⟩ := closes_invalid env
            (by rw [hloaded.client]; exact hidle.handler)
            (show loaded.client.readBuffer.content = [] ++ space :: others from hloaded.content)
            List.not_mem_nil (by decide)
          exact ⟨final, .stop ((hruns _ _).mpr hclosed) nofun, hpassed.trans hloaded.passed⟩

/-- The cuts of a stream agree exactly when its first byte is a space or when the
stream is quiet. -/
theorem segmentationIndependent_iff_quiet
    (cgi : HttpHandler) (policy : StringPolicy) (client : HttpClient) (stream : Bytes) :
    (connect (.accepting cgi policy) client).SegmentationIndependent (.accepting cgi policy)
        stream ↔
      stream.head? = some space ∨ Quiet client.readBuffer.size stream := by
  have hidle := idle_connect (.accepting cgi policy) client
  have hagain : (Environment.accepting cgi policy).readEnd = .again := rfl
  constructor
  · intro hindependent
    cases stream with
    | nil => exact .inr (.unread (by simp))
    | cons byte stream =>
        by_cases hbyte : byte = space
        · exact .inl (by rw [hbyte]; rfl)
        right
        by_cases hsize : client.readBuffer.size = 0
        · refine .unread ?_
          rw [hsize, List.take_zero]
          exact List.not_mem_nil
        refine Swallows.quiet hidle hagain fun cut hcut => ?_
        obtain ⟨final, hfeeds, hpassed⟩ := Idle.feeds_bytes (.accepting cgi policy) hidle
          (Nat.pos_of_ne_zero hsize) hbyte
        obtain ⟨final', hfeeds', -⟩ := (hindependent _ cut
          (isCut_bytes _ (Nat.pos_of_ne_zero hsize)) hcut _ _).mp ⟨final, hfeeds, rfl⟩
        exact ⟨final', hfeeds'⟩
  · rintro (hhead | hquiet)
    · obtain ⟨rest, rfl⟩ := List.head?_eq_some_iff.mp hhead
      refine segmentationIndependent_of_produces [] .closed fun cut hcut => ?_
      obtain ⟨final, hfeeds, hpassed⟩ := Idle.feeds_space (.accepting cgi policy) hidle hcut
      exact ⟨final, hfeeds, by rw [hpassed]; rfl⟩
    · refine segmentationIndependent_of_produces [] .done fun cut hcut => ?_
      obtain ⟨final, hfeeds, hpassed⟩ := hidle.feeds hagain hquiet hcut
      exact ⟨final, hfeeds, by rw [hpassed]; rfl⟩

/-- The events of `Feeds`, run with this fuel. -/
def feed (env : Environment) (fuel : Nat) : Session → List Bytes → Option (Ending × Session)
  | session, [] => some (.done, session)
  | session, piece :: rest =>
      match (session.deliver [piece]).processEvent env .read fuel with
      | none => none
      | some (.done, next) => feed env fuel next rest
      | some (ending, next) => some (ending, next)

theorem produces_of_feed
    {session : Session} {cut : List Bytes} {requests : List RequestView} {ending : Ending}
    (fuel : Nat)
    (hfeed : (feed env fuel session cut).map
      (fun result => (result.2.passed.map HttpRequest.view, result.1)) =
        some (requests, ending)) :
    session.Produces env cut requests ending := by
  induction cut generalizing session with
  | nil =>
      simp only [feed, Option.map_some, Option.some.injEq, Prod.mk.injEq] at hfeed
      obtain ⟨rfl, rfl⟩ := hfeed
      exact ⟨session, .nil, rfl⟩
  | cons piece rest ih =>
      rw [feed] at hfeed
      cases hevent : (session.deliver [piece]).processEvent env .read fuel with
      | none => simp [hevent] at hfeed
      | some result =>
          obtain ⟨first, next⟩ := result
          rw [hevent] at hfeed
          cases first with
          | done =>
              obtain ⟨final, hfeeds, hfinal⟩ := ih hfeed
              exact ⟨final, .next ⟨fuel, hevent⟩ hfeeds, hfinal⟩
          | closed =>
              simp only [Option.map_some, Option.some.injEq, Prod.mk.injEq] at hfeed
              obtain ⟨rfl, rfl⟩ := hfeed
              exact ⟨next, .stop ⟨fuel, hevent⟩ nofun, rfl⟩
          | crashed =>
              simp only [Option.map_some, Option.some.injEq, Prod.mk.injEq] at hfeed
              obtain ⟨rfl, rfl⟩ := hfeed
              exact ⟨next, .stop ⟨fuel, hevent⟩ nofun, rfl⟩

def requestLine : Bytes :=
  ascii ['/', ' ', 'H', 'T', 'T', 'P', '/', '1', '.', '1', '\r', '\n', '\r', '\n']

/-- A request that is answered in one piece is refused in two. -/
theorem not_segmentationIndependent_shortRequest :
    ¬ fresh.SegmentationIndependent plain (ascii ['G', 'E', 'T', ' '] ++ requestLine) := by
  intro hindependent
  have hwhole : fresh.Produces plain [ascii ['G', 'E', 'T', ' '] ++ requestLine]
      [⟨.get, .v11, ascii ['/'], [], .empty, []⟩] .done :=
    produces_of_feed 10 (by decide +kernel)
  have hpieces : fresh.Produces plain [ascii ['G', 'E', 'T', ' '], requestLine] [] .closed :=
    produces_of_feed 10 (by decide +kernel)
  have hcut₁ : IsCut fresh.client.readBuffer.size (ascii ['G', 'E', 'T', ' '] ++ requestLine)
      [ascii ['G', 'E', 'T', ' '] ++ requestLine] :=
    ⟨by decide, by decide, by rw [fresh_size]; decide⟩
  have hcut₂ : IsCut fresh.client.readBuffer.size (ascii ['G', 'E', 'T', ' '] ++ requestLine)
      [ascii ['G', 'E', 'T', ' '], requestLine] :=
    ⟨by decide, by decide, by rw [fresh_size]; decide⟩
  have hother := (hindependent _ _ hcut₁ hcut₂ _ _).mp hwhole
  exact absurd (hother.unique hpieces).2 (by decide)

end Session

end BackEndFacility
