import BackEndFacility.HttpParsing
import Mathlib.Data.Prod.Lex
import Mathlib.Logic.Relation

/-!
# When an event ends

`ProcessEvent` repeats while its handlers report progress.  Every report comes
with less input left, a state nearer to the end of the response, or less output
pending, with one exception.  `ParseHeader` reports progress when a line has no
end yet, and from there the loop does not come back.
-/

namespace BackEndFacility

/-! ## Header sections -/

def FieldLine (line : Bytes) : Prop :=
  ¬ httpCtrl <:+: line ∧ httpHeaderDelim <:+: line

/-- The first line is complete and is no header field. -/
def EndsHeader (bytes : Bytes) : Prop :=
  ∃ line rest, bytes = line ++ httpCtrl ++ rest ∧
    ¬ httpCtrl <:+: line ∧ ¬ httpHeaderDelim <:+: line

/-- The header section ends inside the bytes.  When its lines use up the content
the parser goes on at the front of the window. -/
inductive HeaderWhole (window : Bytes) : Bytes → Prop
  | last {bytes : Bytes} (hlast : EndsHeader bytes) : HeaderWhole window bytes
  | field {line rest : Bytes} (hline : FieldLine line) (hrest : rest ≠ [])
      (hwhole : HeaderWhole window rest) : HeaderWhole window (line ++ httpCtrl ++ rest)
  | wrapped {line : Bytes} (hline : FieldLine line) (hwindow : EndsHeader window) :
      HeaderWhole window (line ++ httpCtrl)

theorem FieldLine.split
    {line : Bytes}
    (hline : FieldLine line) :
    ∃ key value, line = key ++ httpHeaderDelim ++ value ∧ ¬ httpHeaderDelim <:+: key := by
  obtain ⟨key, value, heq, hkey⟩ := exists_first_pair hline.2
  exact ⟨key, value, by simpa [httpHeaderDelim] using heq, hkey⟩

theorem exists_line
    {bytes : Bytes}
    (hctrl : httpCtrl <:+: bytes) :
    ∃ line rest, bytes = line ++ httpCtrl ++ rest ∧ ¬ httpCtrl <:+: line := by
  obtain ⟨line, rest, heq, hline⟩ := exists_first_pair hctrl
  exact ⟨line, rest, by simpa [httpCtrl] using heq, hline⟩

namespace HttpClient

theorem parseHeaderLines_fieldLine
    {client : HttpClient} {stop : Nat} {line rest : Bytes}
    (hstop : stop ≤ client.readBuffer.memory.length)
    (hahead : client.readBuffer.ahead stop = line ++ httpCtrl ++ rest)
    (hline : FieldLine line) :
    ∃ request, ∀ fuel len, parseHeaderLines stop (fuel + 1) len client =
      parseHeaderLines stop fuel (len + (line.length + 2))
        ((client.consumeBuffer (line.length + 2)).setRequest request) := by
  obtain ⟨key, value, rfl, hkey⟩ := hline.split
  exact ⟨_, fun fuel len => parseHeaderLines_field fuel len hstop hahead hline.1 hkey⟩

theorem content_afterLine
    {client : HttpClient} {line rest : Bytes}
    (hcontent : client.readBuffer.content = line ++ httpCtrl ++ rest) :
    (client.readBuffer.consumeBuffer (line.length + 2)).content = rest := by
  have hconsumed := HttpReadBuffer.content_consumeBuffer hcontent
  rwa [List.length_append] at hconsumed

theorem curSize_of_line
    {client : HttpClient} {line rest : Bytes}
    (hcontent : client.readBuffer.content = line ++ httpCtrl ++ rest) :
    client.readBuffer.curSize = line.length + 2 + rest.length := by
  rw [← HttpReadBuffer.content_length, hcontent, List.length_append, List.length_append]
  rfl

/-- A section that ends in the buffer is parsed, and some of the content with it. -/
theorem parseHeader_whole
    {client : HttpClient} {bytes : Bytes} (len : Nat)
    (hwhole : HeaderWhole client.readBuffer.window bytes)
    (hcontent : client.readBuffer.content = bytes) :
    ∃ (fuel ret : Nat) (next : HttpClient),
      parseHeaderLines client.readBuffer.getContentEnd fuel len client = some ((ret : Int), next) ∧
      next.evtHandler = .processBody ∧
      next.pendingWrite = client.pendingWrite ∧
      next.readBuffer.curSize < client.readBuffer.curSize := by
  generalize hwindow : client.readBuffer.window = window at hwhole
  induction hwhole generalizing client len with
  | last hlast =>
      obtain ⟨line, rest, rfl, hline, hdelim⟩ := hlast
      have hsize := curSize_of_line hcontent
      refine ⟨1, _, _, parseHeaderLines_last 0 len client.readBuffer.getContentEnd_le hcontent
        hline hdelim, rfl, rfl, ?_⟩
      simp only [finishParsingHeader, setKeepalive, consumeBuffer, HttpReadBuffer.consumeBuffer]
      omega
  | @field line rest hline hrest _ ih =>
      have hsize := curSize_of_line hcontent
      have hpos : 0 < rest.length := List.length_pos_iff.mpr hrest
      have hend := HttpReadBuffer.getContentEnd_consumeBuffer
        (show line.length + 2 < client.readBuffer.curSize by omega)
      obtain ⟨request, hfield⟩ := parseHeaderLines_fieldLine client.readBuffer.getContentEnd_le
        hcontent hline
      have hafter : ((client.consumeBuffer (line.length + 2)).setRequest
          request).readBuffer.content = rest :=
        content_afterLine hcontent
      have hsame : ((client.consumeBuffer (line.length + 2)).setRequest
          request).readBuffer.window = window := by
        rw [← hwindow]
        exact HttpReadBuffer.window_consumeBuffer (by omega)
      obtain ⟨fuel, ret, next, hparse, hhandler, hpending, hless⟩ :=
        ih (len + (line.length + 2)) hafter hsame
      refine ⟨fuel + 1, ret, next, ?_, hhandler, hpending, ?_⟩
      · rw [hfield, ← hend]
        exact hparse
      · have hcur : ((client.consumeBuffer (line.length + 2)).setRequest
            request).readBuffer.curSize = rest.length := by
          rw [← HttpReadBuffer.content_length, hafter]
        omega
  | @wrapped line hline hends =>
      have hcontent' : client.readBuffer.content = line ++ httpCtrl ++ [] := by
        rw [hcontent, List.append_nil]
      have hsize := curSize_of_line hcontent'
      rw [List.length_nil] at hsize
      obtain ⟨request, hfield⟩ := parseHeaderLines_fieldLine client.readBuffer.getContentEnd_le
        hcontent' hline
      obtain ⟨first, rest, heq, hfirst, hdelim⟩ := hends
      have hahead : ((client.consumeBuffer (line.length + 2)).setRequest
          request).readBuffer.ahead client.readBuffer.getContentEnd =
            first ++ httpCtrl ++ rest := by
        rw [← heq, ← hwindow]
        exact HttpReadBuffer.ahead_drained _ (by omega)
      have hlast := parseHeaderLines_last 0 (len + (line.length + 2))
        (show client.readBuffer.getContentEnd ≤ ((client.consumeBuffer (line.length + 2)).setRequest
          request).readBuffer.memory.length from client.readBuffer.getContentEnd_le)
        hahead hfirst hdelim
      refine ⟨2, _, _, (hfield 1 len).trans hlast, rfl, rfl, ?_⟩
      simp only [finishParsingHeader, setKeepalive, setRequest, consumeBuffer,
        HttpReadBuffer.consumeBuffer]
      omega

/-- At the front of a window that starts with a header field the lines never end. -/
theorem parseHeaderLines_hangs
    {client : HttpClient} {stop fuel len : Nat}
    (hstop : stop ≤ client.readBuffer.memory.length)
    (hdrained : client.readBuffer.curSize = 0)
    (hctrl : httpCtrl <:+: slice client.readBuffer.memory 0 stop)
    (hends : ¬ EndsHeader (slice client.readBuffer.memory 0 stop)) :
    parseHeaderLines stop fuel len client = none := by
  induction fuel generalizing client len with
  | zero => rfl
  | succ fuel ih =>
      obtain ⟨line, rest, heq, hline⟩ := exists_line hctrl
      have hfieldLine : FieldLine line := by
        refine ⟨hline, ?_⟩
        by_contra hdelim
        exact hends ⟨line, rest, heq, hline, hdelim⟩
      have hahead : client.readBuffer.ahead stop = line ++ httpCtrl ++ rest := by
        rw [← heq]
        unfold HttpReadBuffer.ahead HttpReadBuffer.getContentStart
        rw [client.readBuffer.rewound hdrained]
      obtain ⟨request, hfield⟩ := parseHeaderLines_fieldLine hstop hahead hfieldLine
      rw [hfield]
      refine ih hstop ?_ hctrl hends
      simp only [setRequest, consumeBuffer, HttpReadBuffer.consumeBuffer]
      omega

/-- Where the section does not end in the buffer, a call that returns reports
progress and leaves a line without its end. -/
theorem parseHeader_cut
    {client next : HttpClient} {fuel len : Nat} {ret : Int}
    (hcut : ¬ HeaderWhole client.readBuffer.window client.readBuffer.content)
    (hparse : parseHeaderLines client.readBuffer.getContentEnd fuel len client =
      some (ret, next)) :
    ret = 1 ∧ next.evtHandler = client.evtHandler ∧
      ¬ httpCtrl <:+: next.readBuffer.content ∧
      next.readBuffer.size = client.readBuffer.size ∧
      (next.readBuffer.content = [] → client.readBuffer.content = []) := by
  induction fuel generalizing client len with
  | zero => simp [parseHeaderLines] at hparse
  | succ fuel ih =>
      by_cases hctrl : httpCtrl <:+: client.readBuffer.content
      · obtain ⟨line, rest, heq, hline⟩ := exists_line hctrl
        have hfieldLine : FieldLine line := by
          refine ⟨hline, ?_⟩
          by_contra hdelim
          exact hcut (.last ⟨line, rest, heq, hline, hdelim⟩)
        have hsize := curSize_of_line heq
        obtain ⟨request, hfield⟩ := parseHeaderLines_fieldLine
          client.readBuffer.getContentEnd_le heq hfieldLine
        rw [hfield] at hparse
        by_cases hrest : rest = []
        · subst hrest
          rw [List.append_nil] at heq
          rw [List.length_nil] at hsize
          have hends : ¬ EndsHeader client.readBuffer.window := by
            intro hends
            rw [heq] at hcut
            exact hcut (.wrapped hfieldLine hends)
          have hwindow : httpCtrl <:+: client.readBuffer.window :=
            hctrl.trans client.readBuffer.content_suffix_window.isInfix
          have hdrained : ((client.consumeBuffer (line.length + 2)).setRequest
              request).readBuffer.curSize = 0 := by
            simp only [setRequest, consumeBuffer, HttpReadBuffer.consumeBuffer]
            omega
          have hhangs : parseHeaderLines client.readBuffer.getContentEnd fuel
              (len + (line.length + 2))
              ((client.consumeBuffer (line.length + 2)).setRequest request) = none :=
            parseHeaderLines_hangs client.readBuffer.getContentEnd_le hdrained hwindow hends
          rw [hhangs] at hparse
          simp at hparse
        · have hpos : 0 < rest.length := List.length_pos_iff.mpr hrest
          have hend := HttpReadBuffer.getContentEnd_consumeBuffer
            (show line.length + 2 < client.readBuffer.curSize by omega)
          have hafter : ((client.consumeBuffer (line.length + 2)).setRequest
              request).readBuffer.content = rest :=
            content_afterLine heq
          have hsame : ((client.consumeBuffer (line.length + 2)).setRequest
              request).readBuffer.window = client.readBuffer.window :=
            HttpReadBuffer.window_consumeBuffer (by omega)
          have hnext : ¬ HeaderWhole
              ((client.consumeBuffer (line.length + 2)).setRequest request).readBuffer.window
              ((client.consumeBuffer (line.length + 2)).setRequest request).readBuffer.content := by
            rw [hafter, hsame]
            intro hwhole
            rw [heq] at hcut
            exact hcut (.field hfieldLine hrest hwhole)
          rw [← hend] at hparse
          obtain ⟨hret, hhandler, hno, hkeep, hempty⟩ := ih hnext hparse
          refine ⟨hret, hhandler, hno, hkeep, fun hnil => ?_⟩
          have habsurd := hempty hnil
          rw [hafter] at habsurd
          exact absurd habsurd hrest
      · rw [parseHeaderLines_short fuel len client.readBuffer.start_le_end
          client.readBuffer.getContentEnd_le hctrl] at hparse
        simp only [Option.some.injEq, Prod.mk.injEq] at hparse
        obtain ⟨rfl, rfl⟩ := hparse
        exact ⟨rfl, rfl, hctrl, rfl, id⟩

end HttpClient

/-! ## Progress -/

namespace Session

variable {env : Environment} {code : SocketCode}

def Terminates (env : Environment) (code : SocketCode) (session : Session) : Prop :=
  ∃ ending final, session.Runs env code ending final

/-- The bytes that stand before `ParseHeader` do not hold the end of the header
section. -/
def HeaderCut (env : Environment) (code : SocketCode) (session : Session) : Prop :=
  session.client.evtHandler = .processHeader ∧ 0 ≤ (session.fetch env code).1 ∧
    ¬ HeaderWhole (session.fetch env code).2.client.readBuffer.window
      (session.fetch env code).2.client.readBuffer.content

def unread (session : Session) : Nat :=
  session.client.readBuffer.curSize + (session.incoming.map List.length).sum

def pendingBytes (session : Session) : Nat :=
  (session.client.pendingWrite.map (·.data.length)).sum

def rank : EventHandler → Nat
  | .processBody => 3
  | .generateResponse => 2
  | .sendResponse => 1
  | .processRequestLine => 0
  | .processHeader => 0

theorem Continues.terminates_iff
    {session next : Session}
    (hcontinues : session.Continues env code next) :
    session.Terminates env code ↔ next.Terminates env code := by
  unfold Terminates
  simp only [hcontinues.runs_iff]

/-! ## The loop that never ends -/

/-- No byte will reach the buffer during this event. -/
def Unfed (env : Environment) (code : SocketCode) (session : Session) : Prop :=
  code = .read → session.client.readBuffer.content = [] →
    session.incoming = [] ∧ env.readEnd = .again ∨ session.client.readBuffer.size = 0

def Stalled (env : Environment) (code : SocketCode) (session : Session) : Prop :=
  session.client.evtHandler = .processHeader ∧
    ¬ httpCtrl <:+: session.client.readBuffer.content ∧ session.Unfed env code

theorem fetch_unfed
    {session : Session}
    (hunfed : session.Unfed env code) :
    (session.fetch env code).1 = 0 ∧
      (session.fetch env code).2.client = session.client ∧
      (session.fetch env code).2.incoming = session.incoming := by
  unfold fetch
  split_ifs with hcode
  · rcases session.readHttpData_cases env with
      ⟨-, heq⟩ | ⟨-, -, heq⟩ | ⟨-, -, hincoming, -, heq⟩ | ⟨hempty, hsize, -, hend, -⟩ |
      ⟨rest, hempty, hsize, hincoming, -⟩ | ⟨piece, rest, buffer, hempty, hsize, hincoming, -⟩
    · simp [heq]
    · simp [heq]
    · rw [heq]
      exact ⟨rfl, rfl, hincoming.symm⟩
    · rcases hunfed hcode hempty with ⟨-, hagain⟩ | hzero
      · rw [hagain] at hend
        exact absurd hend nofun
      · omega
    · rcases hunfed hcode hempty with ⟨hnil, -⟩ | hzero
      · rw [hincoming] at hnil
        exact absurd hnil nofun
      · omega
    · rcases hunfed hcode hempty with ⟨hnil, -⟩ | hzero
      · rw [hincoming] at hnil
        exact absurd hnil nofun
      · omega
  · exact ⟨rfl, rfl, rfl⟩

theorem handle_stalled
    {session : Session}
    (hstalled : session.Stalled env code) :
    ∃ next, next.Stalled env code ∧ session.handle env code 0 = none ∧
      ∀ fuel, session.handle env code (fuel + 1) = some (.returned 1 next) := by
  obtain ⟨hhandler, hctrl, hunfed⟩ := hstalled
  obtain ⟨hret, hclient, hincoming⟩ := fetch_unfed hunfed
  have hparse : ∀ fuel, session.client.parseHeader (fuel + 1) = some (1, session.client) := by
    intro fuel
    exact HttpClient.parseHeaderLines_short fuel 0 session.client.readBuffer.start_le_end
      session.client.readBuffer.getContentEnd_le hctrl
  refine ⟨(session.fetch env code).2, ?_, ?_, fun fuel => ?_⟩
  · unfold Stalled Unfed
    rw [hclient, hincoming]
    exact ⟨hhandler, hctrl, hunfed⟩
  · unfold handle processHeader process
    simp only [hhandler, hret, hclient]
    rfl
  · unfold handle processHeader process
    simp only [hhandler, hret, hclient, hparse]
    rw [← hclient]
    rfl

theorem not_terminates_of_stalled
    {session : Session}
    (hstalled : session.Stalled env code) :
    ¬ session.Terminates env code := by
  have hnone : ∀ fuel, session.processEvent env code fuel = none := by
    intro fuel
    induction fuel generalizing session with
    | zero => rfl
    | succ fuel ih =>
        obtain ⟨next, hnext, hzero, hsucc⟩ := handle_stalled hstalled
        rw [processEvent]
        cases fuel with
        | zero => rw [hzero]
        | succ fuel =>
            rw [hsucc]
            exact ih hnext
  rintro ⟨ending, final, fuel, hfuel⟩
  rw [hnone] at hfuel
  cases hfuel

theorem unfed_of_empty
    {session : Session}
    (hret : 0 ≤ (session.fetch env code).1)
    (hempty : (session.fetch env code).2.client.readBuffer.content = []) :
    (session.fetch env code).2.Unfed env code := by
  intro hcode _
  unfold fetch at hret hempty ⊢
  rw [if_pos hcode] at hret hempty ⊢
  rcases session.readHttpData_cases env with
    ⟨hcontent, heq⟩ | ⟨-, hsize, heq⟩ | ⟨-, -, hincoming, hend, heq⟩ | ⟨-, -, -, -, heq⟩ |
    ⟨rest, -, -, -, heq⟩ | ⟨piece, rest, buffer, -, hsize, -, hpiece, heq, -, hcontent, -⟩
  · rw [heq] at hempty
    exact absurd hempty hcontent
  · rw [heq]
    exact .inr hsize
  · rw [heq]
    exact .inl ⟨rfl, hend⟩
  · rw [heq] at hret
    change (0 : Int) ≤ -1 at hret
    omega
  · rw [heq] at hret
    change (0 : Int) ≤ -1 at hret
    omega
  · rw [heq] at hempty
    change buffer.content = [] at hempty
    rw [hcontent, List.take_eq_nil_iff] at hempty
    rcases hempty with hzero | hnil
    · omega
    · exact absurd hnil hpiece

/-- A header section that does not end in the buffer keeps the loop going. -/
theorem not_terminates_of_headerCut
    {session : Session}
    (hcut : session.HeaderCut env code) :
    ¬ session.Terminates env code := by
  obtain ⟨hhandler, hret, hwhole⟩ := hcut
  rintro ⟨ending, final, hruns⟩
  obtain ⟨reply, fuel, hreply⟩ := hruns.replies
  have hhandle := hreply
  unfold handle processHeader process at hhandle
  simp only [hhandler, if_neg (show ¬ (session.fetch env code).1 < 0 by omega)] at hhandle
  cases hparse : (session.fetch env code).2.client.parseHeader fuel with
  | none => simp [hparse] at hhandle
  | some result =>
      obtain ⟨len, client⟩ := result
      rw [hparse] at hhandle
      obtain ⟨rfl, hsame, hctrl, hsize, hempty⟩ := HttpClient.parseHeader_cut hwhole hparse
      simp only [Option.some.injEq] at hhandle
      subst hhandle
      have hcontinues : session.Continues env code
          ((session.fetch env code).2.setClient client) :=
        ⟨1, by decide, fuel, hreply⟩
      have hstalled : ((session.fetch env code).2.setClient client).Stalled env code := by
        have hframe := (session.fetch_frame env code).1
        refine ⟨?_, hctrl, fun hcode hnil => ?_⟩
        · exact hsame.trans (by rw [hframe]; exact hhandler)
        · have hunfed := unfed_of_empty hret (hempty hnil) hcode (hempty hnil)
          unfold setClient
          simp only
          rw [hsize]
          exact hunfed
      exact not_terminates_of_stalled hstalled
        ⟨ending, final, (hcontinues.runs_iff ending final).mp hruns⟩

end Session

/-! ## The work that is left -/

namespace HttpClient

theorem parseVersion_curSize
    {client next : HttpClient} {stop len : Nat} {ret : Int}
    (hparse : client.parseVersion stop len = (ret, next)) :
    next.readBuffer.curSize ≤ client.readBuffer.curSize := by
  unfold parseVersion at hparse
  simp only at hparse
  split_ifs at hparse <;> simp only [Prod.mk.injEq] at hparse <;> obtain ⟨-, rfl⟩ := hparse
  · exact le_refl _
  · exact le_refl _
  · exact le_refl _
  · simp only [finishParsingRequestLine, consumeBuffer, setRequest,
      HttpReadBuffer.consumeBuffer]
    omega

theorem parseTarget_curSize
    {client next : HttpClient} {stop len : Nat} {ret : Int}
    (hparse : client.parseTarget stop len = some (ret, next)) :
    next.readBuffer.curSize ≤ client.readBuffer.curSize := by
  unfold parseTarget at hparse
  simp only at hparse
  split_ifs at hparse with hdelim
  · simp only [Option.some.injEq, Prod.mk.injEq] at hparse
    rw [hparse.2]
  · split at hparse
    · cases hparse
    · refine (parseVersion_curSize (Option.some.inj hparse)).trans ?_
      simp only [consumeBuffer, setRequest, HttpReadBuffer.consumeBuffer]
      omega

/-- A request line that is taken up costs some of the content. -/
theorem parseRequestLine_progress
    {client next : HttpClient} {ret : Int}
    (hparse : client.parseRequestLine = some (ret, next))
    (hpos : 0 < ret) :
    next.readBuffer.curSize < client.readBuffer.curSize := by
  by_cases hspace : space ∈ client.readBuffer.content
  · obtain ⟨method, rest, heq, hmethod⟩ := List.eq_append_cons_of_mem hspace
    have hlen : client.readBuffer.curSize = method.length + (rest.length + 1) := by
      rw [← HttpReadBuffer.content_length, heq, List.length_append, List.length_cons]
    rw [parseRequestLine_eq heq hmethod] at hparse
    split_ifs at hparse with hvalid
    · simp only [Option.some.injEq, Prod.mk.injEq] at hparse
      omega
    · have hle := parseTarget_curSize hparse
      simp only [consumeBuffer, setRequest, HttpReadBuffer.consumeBuffer] at hle
      omega
  · rw [parseRequestLine_short hspace] at hparse
    simp only [Option.some.injEq, Prod.mk.injEq] at hparse
    omega

theorem receiveBody_progress
    {policy : StringPolicy} {client next : HttpClient} {contentLen : Nat} {ret : Int}
    (hreceive : client.receiveBody policy contentLen = (ret, next))
    (hpos : 0 < ret) :
    next.readBuffer.curSize < client.readBuffer.curSize := by
  unfold receiveBody at hreceive
  simp only at hreceive
  split_ifs at hreceive with hdone hmore hlast <;>
    simp only [Prod.mk.injEq, HttpReadBuffer.content_length] at hreceive <;>
    obtain ⟨rfl, rfl⟩ := hreceive
  · omega
  · omega
  · simp only [consumeBuffer, setRequest, finishParsingBody, HttpReadBuffer.consumeBuffer]
    omega
  · simp only [consumeBuffer, setRequest, HttpReadBuffer.consumeBuffer]
    omega

theorem parseBody_progress
    {policy : StringPolicy} {client next : HttpClient} {ret : Int}
    (hparse : client.parseBody policy = (ret, next))
    (hpos : 0 < ret) :
    next.readBuffer.curSize < client.readBuffer.curSize ∨
      next.readBuffer.curSize ≤ client.readBuffer.curSize ∧
        next.evtHandler = .generateResponse := by
  unfold parseBody at hparse
  simp only at hparse
  split_ifs at hparse with hpost hlen hnone hlarge
  · simp only [Prod.mk.injEq] at hparse
    obtain ⟨-, rfl⟩ := hparse
    refine .inr ⟨?_, rfl⟩
    simp only [finishParsingBody, consumeBuffer, HttpReadBuffer.consumeBuffer]
    omega
  · exact .inl (receiveBody_progress hparse hpos)
  · simp only [Prod.mk.injEq] at hparse
    omega
  · simp only [Prod.mk.injEq] at hparse
    omega
  · have hless := receiveBody_progress hparse hpos
    exact .inl hless

end HttpClient

namespace Session

variable {env : Environment} {code : SocketCode}

/-- Input left, then states left until the response is sent, then output left. -/
def work (session : Session) : ℕ ×ₗ ℕ ×ₗ ℕ :=
  toLex (session.unread, toLex (rank session.client.evtHandler, session.pendingBytes))

theorem work_lt_of_unread
    {session next : Session}
    (hunread : next.unread < session.unread) :
    next.work < session.work := by
  exact Prod.Lex.toLex_lt_toLex.mpr (.inl hunread)

theorem work_lt_of_rank
    {session next : Session}
    (hunread : next.unread ≤ session.unread)
    (hrank : rank next.client.evtHandler < rank session.client.evtHandler) :
    next.work < session.work := by
  rcases hunread.lt_or_eq with hlt | heq
  · exact work_lt_of_unread hlt
  · exact Prod.Lex.toLex_lt_toLex.mpr (.inr ⟨heq, Prod.Lex.toLex_lt_toLex.mpr (.inl hrank)⟩)

theorem fetch_unread (env : Environment) (code : SocketCode) (session : Session) :
    (session.fetch env code).2.unread ≤ session.unread := by
  unfold fetch
  split_ifs with hcode
  · rcases session.readHttpData_cases env with
      ⟨-, heq⟩ | ⟨-, -, heq⟩ | ⟨-, -, hincoming, -, heq⟩ | ⟨-, -, hincoming, -, heq⟩ |
      ⟨rest, -, -, hincoming, heq⟩ |
      ⟨piece, rest, buffer, hempty, -, hincoming, -, heq, -, hcontent, -⟩
    · rw [heq]
    · rw [heq]
    · rw [heq]
      simp [unread, afterRead, setReadBuffer]
    · rw [heq]
      simp [unread, afterRead, setReadBuffer]
    · rw [heq]
      simp [unread, afterRead, setReadBuffer, hincoming]
    · rw [heq]
      have hcur : buffer.curSize = (piece.take session.client.readBuffer.size).length := by
        rw [← HttpReadBuffer.content_length, hcontent]
      rw [List.length_take] at hcur
      unfold unread afterRead setReadBuffer
      simp only [hcur, hincoming, List.map_cons, List.sum_cons]
      split_ifs with hfits
      · omega
      · simp only [List.map_cons, List.sum_cons, List.length_drop]
        omega
  · exact le_refl _

theorem sendPending_progress
    {session next : Session} {buffers : List HttpBuffer} {len : Nat} {ret : Int}
    (hsend : session.sendPending env buffers len = (ret, next)) :
    ret < 0 ∨
      next.unread = session.unread ∧
        (next.client.evtHandler = .processRequestLine ∨
          next.client.evtHandler = session.client.evtHandler ∧
            ret + next.pendingBytes = len + (buffers.map (·.data.length)).sum) := by
  induction buffers generalizing session len with
  | nil =>
      simp only [sendPending, Prod.mk.injEq] at hsend
      obtain ⟨-, rfl⟩ := hsend
      exact .inr ⟨rfl, .inl rfl⟩
  | cons buffer rest ih =>
      rw [sendPending] at hsend
      cases haccepts : env.accepts session.sendCalls buffer.data.length with
      | none =>
          simp only [sendBuffer, haccepts, Prod.mk.injEq] at hsend
          exact .inl (by omega)
      | some n =>
          simp only [sendBuffer, haccepts] at hsend
          split_ifs at hsend with hpart
          · simp only [Prod.mk.injEq] at hsend
            obtain ⟨rfl, rfl⟩ := hsend
            refine .inr ⟨rfl, .inr ⟨rfl, ?_⟩⟩
            simp only [pendingBytes, setClient, List.map_cons, List.sum_cons, List.length_drop]
            omega
          · rcases ih hsend with hneg | ⟨hunread, hhandler | ⟨hhandler, hpending⟩⟩
            · exact .inl hneg
            · exact .inr ⟨hunread, .inl hhandler⟩
            · refine .inr ⟨hunread, .inr ⟨hhandler, ?_⟩⟩
              rw [List.map_cons, List.sum_cons]
              omega

/-- A call that reads first: its reply comes from the parser. -/
theorem process_returned
    {session next : Session} {len : Int} {parse : Session → Option Reply}
    (hpos : 0 < len)
    (hprocess : session.process env code parse = some (.returned len next)) :
    0 ≤ (session.fetch env code).1 ∧
      parse (session.fetch env code).2 = some (.returned len next) := by
  unfold process at hprocess
  simp only at hprocess
  split_ifs at hprocess with hneg
  · simp only [Option.some.injEq, Reply.returned.injEq] at hprocess
    omega
  · exact ⟨by omega, hprocess⟩

theorem unread_setClient_lt
    {session : Session} {client : HttpClient}
    (hless : client.readBuffer.curSize <
      (session.fetch env code).2.client.readBuffer.curSize) :
    ((session.fetch env code).2.setClient client).unread < session.unread := by
  refine lt_of_lt_of_le ?_ (session.fetch_unread env code)
  unfold unread setClient
  simp only
  omega

theorem processHeader_whole
    {session : Session}
    (hhandler : session.client.evtHandler = .processHeader)
    (hret : 0 ≤ (session.fetch env code).1)
    (hwhole : HeaderWhole (session.fetch env code).2.client.readBuffer.window
      (session.fetch env code).2.client.readBuffer.content) :
    ∃ (ret : Nat) (client : HttpClient),
      session.Replies env code
        (.returned ret ((session.fetch env code).2.setClient client)) ∧
      client.readBuffer.curSize < (session.fetch env code).2.client.readBuffer.curSize := by
  obtain ⟨fuel, ret, client, hparse, -, -, hless⟩ :=
    HttpClient.parseHeader_whole 0 hwhole rfl
  refine ⟨ret, client, ⟨fuel, ?_⟩, hless⟩
  unfold handle processHeader process HttpClient.parseHeader
  simp only [hhandler, if_neg (show ¬ (session.fetch env code).1 < 0 by omega), hparse]

theorem processRequestLine_work_lt
    {session next : Session} {len : Int}
    (hpos : 0 < len)
    (hhandle : session.processRequestLine env code = some (.returned len next)) :
    next.work < session.work := by
  obtain ⟨-, hparse⟩ := process_returned hpos hhandle
  split at hparse
  · exact absurd hparse nofun
  · rename_i ret client hline
    simp only [Option.some.injEq, Reply.returned.injEq] at hparse
    obtain ⟨rfl, rfl⟩ := hparse
    exact work_lt_of_unread (unread_setClient_lt
      (HttpClient.parseRequestLine_progress hline hpos))

theorem processBody_work_lt
    {session next : Session} {len : Int}
    (hhandler : session.client.evtHandler = .processBody)
    (hpos : 0 < len)
    (hhandle : session.processBody env code = some (.returned len next)) :
    next.work < session.work := by
  obtain ⟨-, hparse⟩ := process_returned hpos hhandle
  cases hbody : (session.fetch env code).2.client.parseBody env.policy with
  | mk ret client =>
      simp only [hbody, Option.some.injEq, Reply.returned.injEq] at hparse
      obtain ⟨rfl, rfl⟩ := hparse
      rcases HttpClient.parseBody_progress hbody hpos with hless | ⟨hle, hgenerate⟩
      · exact work_lt_of_unread (unread_setClient_lt hless)
      · refine work_lt_of_rank (le_trans ?_ (session.fetch_unread env code)) ?_
        · unfold unread setClient
          simp only
          omega
        · rw [hhandler]
          unfold setClient
          simp only [hgenerate]
          decide

theorem queueResponse_returned
    {session next : Session} {response : HttpResponse} {len : Int}
    {allocated : Option (HttpBuffer × HttpWriteBuffer)}
    (hqueue : session.queueResponse response allocated = .returned len next) :
    next.unread = session.unread ∧ next.client.evtHandler = .sendResponse := by
  cases allocated with
  | none => exact absurd hqueue nofun
  | some allocated =>
      simp only [queueResponse, Reply.returned.injEq] at hqueue
      obtain ⟨-, rfl⟩ := hqueue
      exact ⟨rfl, rfl⟩

theorem generateResponse_work_lt
    {session next : Session} {len : Int}
    (hhandler : session.client.evtHandler = .generateResponse)
    (hhandle : session.generateResponse env = .returned len next) :
    next.work < session.work := by
  unfold generateResponse at hhandle
  obtain ⟨hunread, hsend⟩ := queueResponse_returned hhandle
  refine work_lt_of_rank hunread.le ?_
  rw [hhandler, hsend]
  decide

theorem sendResponse_work_lt
    {session next : Session} {len : Int}
    (hhandler : session.client.evtHandler = .sendResponse)
    (hpos : 0 < len)
    (hhandle : session.sendResponse env = .returned len next) :
    next.work < session.work := by
  unfold sendResponse at hhandle
  cases hsend : session.sendPending env session.client.pendingWrite 0 with
  | mk ret after =>
      simp only [hsend, Reply.returned.injEq] at hhandle
      obtain ⟨rfl, rfl⟩ := hhandle
      rcases sendPending_progress hsend with hneg | ⟨hunread, hsent | ⟨hsame, hpending⟩⟩
      · omega
      · refine work_lt_of_rank hunread.le ?_
        rw [hhandler, hsent]
        decide
      · refine Prod.Lex.toLex_lt_toLex.mpr (.inr ⟨hunread, Prod.Lex.toLex_lt_toLex.mpr
          (.inr ⟨congrArg rank hsame, ?_⟩)⟩)
        unfold pendingBytes at hpending ⊢
        simp only at hpending ⊢
        omega

/-- Progress means less work, unless a header line has lost its end. -/
theorem Continues.work_lt
    {session next : Session}
    (hcontinues : session.Continues env code next)
    (huncut : ¬ session.HeaderCut env code) :
    next.work < session.work := by
  obtain ⟨len, hpos, hreply⟩ := hcontinues
  have hreplied := hreply
  obtain ⟨fuel, hhandle⟩ := hreply
  unfold handle at hhandle
  cases hhandler : session.client.evtHandler with
  | processRequestLine =>
      rw [hhandler] at hhandle
      exact processRequestLine_work_lt hpos hhandle
  | processHeader =>
      rw [hhandler] at hhandle
      obtain ⟨hret, -⟩ := process_returned hpos hhandle
      have hwhole : HeaderWhole (session.fetch env code).2.client.readBuffer.window
          (session.fetch env code).2.client.readBuffer.content := by
        by_contra hcut
        exact huncut ⟨hhandler, hret, hcut⟩
      obtain ⟨ret, client, hother, hless⟩ := processHeader_whole hhandler hret hwhole
      have heq := hreplied.unique hother
      simp only [Reply.returned.injEq] at heq
      obtain ⟨-, rfl⟩ := heq
      exact work_lt_of_unread (unread_setClient_lt hless)
  | processBody =>
      rw [hhandler] at hhandle
      exact processBody_work_lt hhandler hpos hhandle
  | generateResponse =>
      rw [hhandler] at hhandle
      exact generateResponse_work_lt hhandler (Option.some.inj hhandle)
  | sendResponse =>
      rw [hhandler] at hhandle
      exact sendResponse_work_lt hhandler hpos (Option.some.inj hhandle)

theorem exists_reply
    {session : Session}
    (huncut : ¬ session.HeaderCut env code) :
    ∃ reply, session.Replies env code reply := by
  cases hhandler : session.client.evtHandler with
  | processHeader =>
      by_cases hneg : (session.fetch env code).1 < 0
      · refine ⟨.returned (session.fetch env code).1 (session.fetch env code).2, 0, ?_⟩
        unfold handle processHeader process
        simp only [hhandler, if_pos hneg]
      · have hwhole : HeaderWhole (session.fetch env code).2.client.readBuffer.window
            (session.fetch env code).2.client.readBuffer.content := by
          by_contra hcut
          exact huncut ⟨hhandler, by omega, hcut⟩
        obtain ⟨ret, client, hreply, -⟩ := processHeader_whole hhandler (by omega) hwhole
        exact ⟨_, hreply⟩
  | processRequestLine =>
      unfold Replies handle processRequestLine process
      simp only [hhandler]
      split_ifs
      · exact ⟨_, 0, rfl⟩
      · split
        · exact ⟨_, 0, rfl⟩
        · exact ⟨_, 0, rfl⟩
  | processBody =>
      unfold Replies handle processBody process
      simp only [hhandler]
      split_ifs
      · exact ⟨_, 0, rfl⟩
      · exact ⟨_, 0, rfl⟩
  | generateResponse =>
      refine ⟨session.generateResponse env, 0, ?_⟩
      unfold handle
      simp only [hhandler]
  | sendResponse =>
      refine ⟨session.sendResponse env, 0, ?_⟩
      unfold handle
      simp only [hhandler]

theorem terminates_of_uncut
    {session : Session}
    (huncut : ∀ next, Relation.ReflTransGen (Continues env code) session next →
      ¬ next.HeaderCut env code) :
    session.Terminates env code := by
  generalize hwork : session.work = work
  induction work using WellFoundedLT.induction generalizing session with
  | ind work ih =>
      have hhere : ¬ session.HeaderCut env code := huncut session .refl
      obtain ⟨reply, hreply⟩ := exists_reply hhere
      cases reply with
      | crashed next => exact ⟨_, _, runs_of_crashed hreply⟩
      | returned len next =>
          rcases lt_trichotomy len 0 with hneg | rfl | hpos
          · exact ⟨_, _, runs_of_negative hreply hneg⟩
          · exact ⟨_, _, runs_of_zero hreply⟩
          · have hcontinues : session.Continues env code next := ⟨len, hpos, hreply⟩
            have hless : next.work < work := hwork ▸ hcontinues.work_lt hhere
            refine hcontinues.terminates_iff.mpr (ih next.work hless ?_ rfl)
            intro later hlater
            exact huncut later (.head hcontinues hlater)

/-- The loop over the state handlers stops exactly when no iteration leaves
`ParseHeader` without the end of the header section before it. -/
theorem terminates_iff_never_headerCut
    (env : Environment) (code : SocketCode) (session : Session) :
    session.Terminates env code ↔
      ∀ next, Relation.ReflTransGen (Continues env code) session next →
        ¬ next.HeaderCut env code := by
  constructor
  · intro hterminates next hreach
    have hnext : next.Terminates env code := by
      induction hreach with
      | refl => exact hterminates
      | tail _ hstep ih => exact hstep.terminates_iff.mp ih
    intro hcut
    exact not_terminates_of_headerCut hcut hnext
  · exact terminates_of_uncut

/-! ## A header that arrives in two pieces -/

/-- A handler that answers 200 to everything. -/
def plain : Environment :=
  .accepting (fun _ response => (response.setStatusCode 200).setStatusMessage (ascii ['O', 'K']))
    .doubling

def fresh : Session :=
  connect plain (.construct (List.replicate (8 * 1024) 0) 15 false 0)

theorem fresh_size :
    fresh.client.readBuffer.size = 8 * 1024 := by
  exact List.length_replicate

def requestWithoutEnd : Bytes :=
  ascii ['G', 'E', 'T', ' ', '/', ' ', 'H', 'T', 'T', 'P', '/', '1', '.', '1', '\r', '\n',
    'H', 'o', 's', 't', ':', ' ', 'a']

def stallsAfter : Option Reply → Bool
  | some (.returned len next) =>
      decide (0 < len ∧ next.client.evtHandler = .processHeader ∧
        ¬ httpCtrl <:+: next.client.readBuffer.content ∧ next.client.readBuffer.content ≠ [])
  | _ => false

theorem not_terminates_requestWithoutEnd :
    ¬ (fresh.deliver [requestWithoutEnd]).Terminates plain .read := by
  have hstalls : stallsAfter ((fresh.deliver [requestWithoutEnd]).handle plain .read 0) = true := by
    decide +kernel
  generalize fresh.deliver [requestWithoutEnd] = session at hstalls ⊢
  cases hreply : session.handle plain .read 0 with
  | none => simp [hreply, stallsAfter] at hstalls
  | some reply =>
      cases reply with
      | crashed next => simp [hreply, stallsAfter] at hstalls
      | returned len next =>
          simp only [hreply, stallsAfter, decide_eq_true_eq] at hstalls
          obtain ⟨hpos, hhandler, hctrl, hcontent⟩ := hstalls
          have hcontinues : session.Continues plain .read next := ⟨len, hpos, 0, hreply⟩
          rw [hcontinues.terminates_iff]
          exact not_terminates_of_stalled
            ⟨hhandler, hctrl, fun _ hempty => absurd hempty hcontent⟩

end Session

end BackEndFacility
