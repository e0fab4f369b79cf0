import RemoteCalls.Arithmetic.Server
import RemoteCalls.Proofs.Connection.Preamble
import RemoteCalls.Proofs.Message.RoundTrip
import RemoteCalls.Proofs.Transport.Lossless

/-!
# RemoteCalls.Proofs.Arithmetic.Serving

What the arithmetic server makes of the messages it is sent.

On a connection that stays open, the server reads the messages in order, however
late their octets come, and answers each of them before it reads on (`Serves`).  So
what it has written is told by the requests it has handled.
-/

namespace RemoteCalls.Arithmetic

/-! ## Requests and responses as messages -/

/-- A request that has been handled: its header, and the operands read from its body. -/
abbrev Handled := Header × Operands

/-- The operands that are read from a body. -/
def Operands.ofBody (body : Bytes) : Operands :=
  .ofVal (BodyReader.result (some (.ofType layout)) ({} : Operands).toVal body).1

theorem Operands.ofBody_encode (x : Operands) : ofBody (layout.encode x.toVal) = x := by
  rw [ofBody, BodyReader.result_encode layout ⟨trivial, trivial⟩, ofVal_toVal]

/-- A message as the server understands it. -/
def understood (m : Message) : Handled := (m.header, .ofBody m.body)

/-- The message that a response is sent as. -/
def Response.message (r : Response) : Message :=
  ⟨r.header, (Ty.signed .w32).encode r.result.toBitVec⟩

/-- The responses to requests in order, each with the number of its request. -/
def responses (handled : List Handled) : List (UInt64 × Response) :=
  handled.flatMap fun e => (respond e.1 e.2).map (e.1.seq, ·)

/-- What is sent in response to requests. -/
def answers (handled : List Handled) : List Message :=
  (responses handled).map (·.2.message)

@[simp] theorem responses_append (es fs : List Handled) :
    responses (es ++ fs) = responses es ++ responses fs := List.flatMap_append

@[simp] theorem answers_append (es fs : List Handled) :
    answers (es ++ fs) = answers es ++ answers fs := by
  simp [answers]

theorem answers_singleton (e : Handled) :
    answers [e] = (respond e.1 e.2).map Response.message := by
  simp [answers, responses, Function.comp_def]

/-- An opening record that the server accepts. -/
structure Accepted (pre : Preamble) : Prop where
  fits : Frame.Fits Preamble.limit pre.octets
  receive : ∀ old : Preamble, old.receive (.ok pre.octets) = (pre, none)

/-- The most octets that the names in a request may have, so that the header of any response to it
can be sent. -/
def nameLimit : Nat := 16000000

/-- A message that the server can answer. -/
structure Answerable (m : Message) : Prop where
  fits : m.Fits defaultLimit
  error : m.header.error = []
  names : m.header.service.length + m.header.method.length ≤ nameLimit

/-- A response carries the names in its request, and its error text is short. -/
theorem header_of_mem_respond {h : Header} {x : Operands} {r : Response} (hr : r ∈ respond h x) :
    r.header.service = h.service ∧ r.header.method = h.method ∧
      (r.header.error = h.error ∨ r.header.error.length = 14) := by
  have hzero : (Bytes.ofText "divide by zero").length = 14 := by decide
  have hunknown : (Bytes.ofText "unknown method").length = 14 := by decide
  unfold respond at hr
  repeat' split at hr
  all_goals simp only [List.mem_cons, List.not_mem_nil, or_false] at hr
  · exact hr ▸ ⟨rfl, rfl, .inl rfl⟩
  · exact hr ▸ ⟨rfl, rfl, .inr hzero⟩
  · exact hr ▸ ⟨rfl, rfl, .inl rfl⟩
  · obtain rfl | rfl := hr <;> exact ⟨rfl, rfl, .inl rfl⟩
  · exact hr ▸ ⟨rfl, rfl, .inr hunknown⟩

/-- The header of every response to a request whose names are not too long fits its frame. -/
theorem length_header_of_respond {h : Header} {x : Operands} (herror : h.error = [])
    (hnames : h.service.length + h.method.length ≤ nameLimit) {r : Response}
    (hr : r ∈ respond h x) : r.header.encode.length ≤ defaultLimit := by
  have hlimits : nameLimit + 34 ≤ defaultLimit := by decide
  obtain ⟨hservice, hmethod, htext⟩ := header_of_mem_respond hr
  have hshort : r.header.error.length ≤ 14 := by
    obtain hnone | htext := htext
    · simp [hnone, herror]
    · exact Nat.le_of_eq htext
  rw [Header.length_encode, hservice, hmethod]
  omega

/-- The message of a response whose header fits can be written. -/
theorem ofWriting_response {r : Response} (hheader : r.header.encode.length ≤ defaultLimit) :
    Message.ofWriting defaultLimit (r.header, some r.body) = some r.message := by
  refine Message.ofWriting_ofValue r.header (.signed .w32) trivial hheader ?_
  have hfour : ((Ty.signed .w32).encode r.result.toBitVec).length = 4 := Bytes.length_ofNatLE 4 _
  rw [hfour]
  decide

theorem fits_of_mem_answers {handled : List Handled}
    (hrequests : ∀ e ∈ handled, e.1.error = [] ∧
      e.1.service.length + e.1.method.length ≤ nameLimit) {m : Message}
    (hm : m ∈ answers handled) : m.Fits defaultLimit := by
  simp only [answers, responses, List.mem_map, List.mem_flatMap] at hm
  obtain ⟨-, ⟨e, he, r, hr, rfl⟩, rfl⟩ := hm
  obtain ⟨herror, hnames⟩ := hrequests e he
  exact Message.fits_of_ofWriting (by decide)
    (ofWriting_response (length_header_of_respond herror hnames hr))

/-! ## Runs of a server -/

namespace Server

variable {σ : Type} [ByteStream σ]

/-- What is handled when the server goes on. -/
def observe (s : Server σ) : List Handled :=
  match s.phase with
  | .body stage header =>
      match s.codec.resume stage with
      | .done _ (.ok body) => [(header, .ofBody body)]
      | _ => []
  | _ => []

/-- Steps of a server and events of the outside in any order.  `outside` says what may happen to the
connection between two steps, and the list is what has been handled. -/
inductive Run (outside : σ → σ → Prop) (s₀ : Server σ) : List Handled → Server σ → Prop where
  | start : Run outside s₀ [] s₀
  | step {handled : List Handled} {s s' : Server σ} (run : Run outside s₀ handled s)
      (h : s.step = .moved s') : Run outside s₀ (handled ++ s.observe) s'
  | outside {handled : List Handled} {s : Server σ} (run : Run outside s₀ handled s) (stream : σ)
      (h : outside s.codec.stream stream) : Run outside s₀ handled (s.withStream stream)

theorem Run.mono {outside outside' : σ → σ → Prop} {s₀ s : Server σ} {handled : List Handled}
    (run : Run outside s₀ handled s) (hle : ∀ s s', outside s s' → outside' s s') :
    Run outside' s₀ handled s := by
  induction run with
  | start => exact .start
  | step _ h ih => exact ih.step h
  | outside _ stream h ih => exact ih.outside stream (hle _ _ h)

omit [ByteStream σ] in
/-- Reading on in a frame moves unless nothing has come, and ends with what it leaves to do. -/
theorem stepFrame_moved {s s' : Server σ} {stage : Frame.Stage}
    {progress : Frame.Progress (Codec σ)} {waiting : Frame.Stage → Phase}
    {finish : Server σ → Except Fault Bytes → Server σ}
    (h : s.stepFrame stage progress waiting finish = .moved s') :
    (∃ reached codec, progress = .waiting reached codec ∧ reached ≠ stage ∧
      s' = { s with codec, phase := waiting reached }) ∨
    ∃ codec result, progress = .done codec result ∧ s' = finish { s with codec } result := by
  unfold stepFrame at h
  cases progress with
  | waiting reached codec =>
      by_cases hsame : reached = stage
      · simp [hsame] at h
      · simp only [hsame, if_false, Turn.moved.injEq] at h
        exact .inl ⟨reached, codec, rfl, hsame, h.symm⟩
  | done codec result => exact .inr ⟨codec, result, rfl, (Turn.moved.inj h).symm⟩

/-- A body that has been read whole is answered, whatever can be read from it. -/
theorem onBody_ok (s : Server σ) (header : Header) (body : Bytes) :
    s.onBody header (.ok body) = s.answer header (.ofBody body) := by
  have hresult := BodyReader.result_fault (some (.ofType Operands.layout))
    ({} : Operands).toVal body
  obtain ⟨entries, hbody⟩ :=
    BodyReader.ofFrame_eq_result (some (.ofType Operands.layout)) ({} : Operands).toVal body
  rw [onBody, BodyReader.receive, hbody, Operands.ofBody]
  obtain hread | hread := hresult <;> rw [hread]

/-! ## Writing responses -/

/-- Responses whose headers fit are all sent. -/
theorem send_pipe (p : Pipe σ) {rs : List Response} {s : Server σ} {left : Bytes}
    (hlimit : s.codec.limit = defaultLimit) (hholds : p.Holds s.codec.stream left)
    (hfits : ∀ r ∈ rs, r.header.encode.length ≤ defaultLimit) :
    ∃ stream, send rs s = s.withStream stream ∧ p.Holds stream left ∧
      p.taken stream =
        p.taken s.codec.stream ++ (rs.map Response.message).flatMap Message.encode := by
  induction rs generalizing s with
  | nil => exact ⟨s.codec.stream, rfl, hholds, (List.append_nil _).symm⟩
  | cons r rs ih =>
      obtain ⟨hr, hmore⟩ := List.forall_mem_cons.mp hfits
      obtain ⟨entries, hencode⟩ :=
        Message.encodeMessage_of_ofWriting (by decide) (ofWriting_response hr)
      obtain ⟨stream, hwrite, htaken, hstill⟩ := p.write r.message.encode hholds
      obtain ⟨stream', hsend, hleft, hall⟩ := @ih (s.withStream stream) hlimit hstill hmore
      refine ⟨stream', ?_, hleft, ?_⟩
      · rw [← hlimit] at hencode
        simp only [send, Codec.write, hencode, hwrite]
        exact hsend
      · rw [hall, List.map_cons, List.flatMap_cons, ← List.append_assoc, ← htaken]
        rfl

/-! ## What a server has read and written -/

/-- Where a server stands in the octets of a client that sends an opening record and then messages,
and what it has handled by then. -/
inductive Attends (p : Pipe σ) (record : Bytes) (messages : List Message) (stream : σ) :
    Phase → List Handled → Prop where
  | greeting {stage : Frame.Stage} {left : Bytes} (hstage : stage.Valid Preamble.limit)
      (hholds : p.Holds stream left)
      (hfront : stage.taken ++ left =
        Frame.encode record ++ messages.flatMap Message.encode) :
      Attends p record messages stream (.greeting stage) []
  | header {stage : Frame.Stage} {left : Bytes} {done rest : List Message}
      (hmessages : messages = done ++ rest) (hstage : stage.Valid defaultLimit)
      (hholds : p.Holds stream left)
      (hfront : stage.taken ++ left = rest.flatMap Message.encode) :
      Attends p record messages stream (.header stage) (done.map understood)
  | body {stage : Frame.Stage} {left : Bytes} {done rest : List Message} {m : Message}
      (hmessages : messages = done ++ m :: rest) (hstage : stage.Valid defaultLimit)
      (hholds : p.Holds stream left)
      (hfront : stage.taken ++ left = Frame.encode m.body ++ rest.flatMap Message.encode) :
      Attends p record messages stream (.body stage m.header) (done.map understood)

section Attends

variable {p : Pipe σ} {record : Bytes} {messages : List Message} {stream : σ} {phase : Phase}
  {handled : List Handled}

/-- What has been handled is what the first messages ask for. -/
theorem Attends.handled_eq (h : Attends p record messages stream phase handled) :
    ∃ done, done <+: messages ∧ handled = done.map understood := by
  cases h with
  | greeting => exact ⟨[], List.nil_prefix, rfl⟩
  | header hmessages => exact ⟨_, ⟨_, hmessages.symm⟩, rfl⟩
  | body hmessages => exact ⟨_, ⟨_, hmessages.symm⟩, rfl⟩

theorem Attends.ne_stopped (h : Attends p record messages stream phase handled) :
    phase ≠ .stopped := by
  cases h <;> exact Phase.noConfusion

theorem Attends.holds (h : Attends p record messages stream phase handled) :
    ∃ left, p.Holds stream left := by
  cases h with
  | greeting _ hholds => exact ⟨_, hholds⟩
  | header _ _ hholds => exact ⟨_, hholds⟩
  | body _ _ hholds => exact ⟨_, hholds⟩

/-- What is still to be read is all that matters of a connection. -/
theorem Attends.restream (h : Attends p record messages stream phase handled) {stream' : σ}
    (hholds : ∀ left, p.Holds stream left → p.Holds stream' left) :
    Attends p record messages stream' phase handled := by
  cases h with
  | greeting hstage hleft hfront => exact .greeting hstage (hholds _ hleft) hfront
  | header hmessages hstage hleft hfront => exact .header hmessages hstage (hholds _ hleft) hfront
  | body hmessages hstage hleft hfront => exact .body hmessages hstage (hholds _ hleft) hfront

end Attends

/-- What a server has made of the octets of a client: it has answered what it has handled, and
nothing else. -/
structure Serves (p : Pipe σ) (record : Bytes) (messages : List Message) (before : Bytes)
    (handled : List Handled) (s : Server σ) : Prop where
  limit : s.codec.limit = defaultLimit
  attends : Attends p record messages s.codec.stream s.phase handled
  count : s.requests = handled.length
  answered : p.taken s.codec.stream = before ++ (answers handled).flatMap Message.encode

section Serves

variable {p : Pipe σ} {record before : Bytes} {messages : List Message} {handled : List Handled}
  {s s' : Server σ}

theorem serves_start {stream : σ} (hholds : p.Holds stream
      (Frame.encode record ++ messages.flatMap Message.encode)) :
    Serves p record messages (p.taken stream) [] (start stream) where
  limit := rfl
  attends := .greeting (Frame.Stage.valid_size _) hholds rfl
  count := rfl
  answered := (List.append_nil _).symm

theorem Serves.greeting {pre : Preamble} (hpre : Accepted pre)
    (h : Serves p pre.octets messages before handled s) {stage : Frame.Stage}
    (hphase : s.phase = .greeting stage) (hstep : s.step = .moved s') :
    Serves p pre.octets messages before (handled ++ s.observe) s' := by
  obtain ⟨hlimit, hattends, hcount, hanswered⟩ := h
  have hnothing : s.observe = [] := by simp only [observe, hphase]
  rw [hphase] at hattends
  rw [hnothing, List.append_nil]
  simp only [step, hphase] at hstep
  cases hattends with
  | @greeting _ left hstage hholds hfront =>
      obtain ⟨reached, codec, hread, -, rfl⟩ | ⟨codec, result, hread, rfl⟩ := stepFrame_moved hstep
      · obtain ⟨stream, hpreamble, rfl⟩ := Frame.Progress.eq_waiting_of_map hread
        obtain ⟨i, hframe, rfl⟩ := Frame.Progress.eq_waiting_of_map hpreamble
        obtain ⟨hreached, ⟨rest, hrest, hleft⟩, htaken⟩ :=
          p.resume_waiting (i := { stream := s.codec.stream }) hholds hstage hframe
        exact ⟨hlimit, .greeting hreached hleft (hrest ▸ hfront), hcount, htaken.trans hanswered⟩
      · obtain ⟨stream, hpreamble, rfl⟩ := Frame.Progress.eq_done_of_map hread
        obtain ⟨i, hframe, rfl⟩ := Frame.Progress.eq_done_of_map hpreamble
        obtain ⟨rfl, hleft, htaken⟩ :=
          p.resume_done (i := { stream := s.codec.stream }) hholds hstage hpre.fits hfront hframe
        simp only [onGreeting, hpre.receive]
        have hstart : Attends p pre.octets messages i.stream (.header .size)
            (([] : List Message).map understood) :=
          .header rfl (Frame.Stage.valid_size _) hleft rfl
        exact ⟨hlimit, hstart, hcount, htaken.trans hanswered⟩

theorem Serves.header (hmessages : ∀ m ∈ messages, Answerable m)
    (h : Serves p record messages before handled s) {stage : Frame.Stage}
    (hphase : s.phase = .header stage) (hstep : s.step = .moved s') :
    Serves p record messages before (handled ++ s.observe) s' := by
  obtain ⟨hlimit, hattends, hcount, hanswered⟩ := h
  have hnothing : s.observe = [] := by simp only [observe, hphase]
  rw [hphase] at hattends
  rw [hnothing, List.append_nil]
  simp only [step, hphase] at hstep
  cases hattends with
  | @header _ left done rest hall hstage hholds hfront =>
      obtain ⟨reached, codec, hread, -, rfl⟩ | ⟨codec, result, hread, rfl⟩ := stepFrame_moved hstep
      · obtain ⟨i, hframe, rfl⟩ := Frame.Progress.eq_waiting_of_map hread
        rw [hlimit] at hframe
        obtain ⟨hreached, ⟨rest, hrest, hleft⟩, htaken⟩ := p.resume_waiting hholds hstage hframe
        exact ⟨hlimit, .header hall hreached hleft (hrest ▸ hfront), hcount, htaken.trans hanswered⟩
      · obtain ⟨i, hframe, rfl⟩ := Frame.Progress.eq_done_of_map hread
        rw [hlimit] at hframe
        cases rest with
        | nil => exact absurd hframe (p.resume_ne_done hholds hfront)
        | cons m rest =>
            have hm : Answerable m := hmessages m (by simp [hall])
            rw [List.flatMap_cons, Message.encode, List.append_assoc] at hfront
            obtain ⟨rfl, hleft, htaken⟩ := p.resume_done hholds hstage hm.fits.frame hfront hframe
            have hheader : Header.receive {} (.ok m.header.encode) = (m.header, none) :=
              Header.ofFrame_eq_iff.mpr ⟨rfl, hm.fits.header⟩
            simp only [onHeader, hheader]
            exact ⟨hlimit, .body hall (Frame.Stage.valid_size _) hleft rfl, hcount,
              htaken.trans hanswered⟩

theorem Serves.body (hmessages : ∀ m ∈ messages, Answerable m)
    (h : Serves p record messages before handled s) {stage : Frame.Stage} {header : Header}
    (hphase : s.phase = .body stage header) (hstep : s.step = .moved s') :
    Serves p record messages before (handled ++ s.observe) s' := by
  obtain ⟨hlimit, hattends, hcount, hanswered⟩ := h
  rw [hphase] at hattends
  simp only [step, hphase] at hstep
  cases hattends with
  | @body _ left done rest m hall hstage hholds hfront =>
      obtain ⟨reached, codec, hread, -, rfl⟩ | ⟨codec, result, hread, rfl⟩ := stepFrame_moved hstep
      · have hnothing : s.observe = [] := by simp only [observe, hphase, hread]
        obtain ⟨i, hframe, rfl⟩ := Frame.Progress.eq_waiting_of_map hread
        rw [hlimit] at hframe
        obtain ⟨hreached, ⟨rest, hrest, hleft⟩, htaken⟩ := p.resume_waiting hholds hstage hframe
        rw [hnothing, List.append_nil]
        exact ⟨hlimit, .body hall hreached hleft (hrest ▸ hfront), hcount, htaken.trans hanswered⟩
      · obtain ⟨i, hframe, rfl⟩ := Frame.Progress.eq_done_of_map hread
        rw [hlimit] at hframe
        have hm : Answerable m := hmessages m (by simp [hall])
        obtain ⟨rfl, hleft, htaken⟩ := p.resume_done hholds hstage hm.fits.body hfront hframe
        have hhandled : s.observe = [understood m] := by
          simp only [observe, hphase, hread, understood]
        have hfits : ∀ r ∈ respond m.header (.ofBody m.body),
            r.header.encode.length ≤ defaultLimit :=
          fun r hr => length_header_of_respond hm.error hm.names hr
        let next : Server σ :=
          { s with
            codec := { s.codec with toInput := i }, requests := s.requests + 1
            phase := .header .size }
        obtain ⟨stream, hsend, hstill, hsent⟩ := send_pipe p (s := next) hlimit hleft hfits
        have hdone : done.map understood ++ [understood m] = (done ++ [m]).map understood := by
          rw [List.map_append, List.map_singleton]
        rw [onBody_ok, answer, hhandled, hsend]
        refine ⟨hlimit, ?_, ?_, ?_⟩
        · rw [hdone]
          exact .header (by rw [hall, List.append_assoc, List.singleton_append])
            (Frame.Stage.valid_size _) hstill rfl
        · rw [List.length_append, List.length_singleton, ← hcount]
          rfl
        · rw [answers_append, answers_singleton, List.flatMap_append, ← List.append_assoc,
            ← hanswered, ← htaken]
          exact hsent

/-- A server that goes on still attends to its client. -/
theorem Serves.step {pre : Preamble} (hpre : Accepted pre)
    (hmessages : ∀ m ∈ messages, Answerable m)
    (h : Serves p pre.octets messages before handled s) (hstep : s.step = .moved s') :
    Serves p pre.octets messages before (handled ++ s.observe) s' := by
  cases hphase : s.phase with
  | greeting stage => exact h.greeting hpre hphase hstep
  | header stage => exact h.header hmessages hphase hstep
  | body stage header => exact h.body hmessages hphase hstep
  | stopped => exact absurd hphase h.attends.ne_stopped

/-- In every run on an open connection, the server answers what it has read. -/
theorem Run.serves {outside : σ → σ → Prop} {stream : σ}
    (houtside : ∀ s s' left, outside s s' → p.Holds s left →
      p.Holds s' left ∧ p.taken s' = p.taken s)
    {pre : Preamble} (hpre : Accepted pre) (hmessages : ∀ m ∈ messages, Answerable m)
    (hholds : p.Holds stream (Frame.encode pre.octets ++ messages.flatMap Message.encode))
    (run : Run outside (Server.start stream) handled s) :
    Serves p pre.octets messages (p.taken stream) handled s := by
  induction run with
  | start => exact serves_start hholds
  | step _ hstep ih => exact ih.step hpre hmessages hstep
  | @outside _ s _ stream' hout ih =>
      obtain ⟨left, hleft⟩ := ih.attends.holds
      have hsame := (houtside _ _ left hout hleft).2
      exact ⟨ih.limit, ih.attends.restream fun left hleft => (houtside _ _ left hout hleft).1,
        ih.count, hsame.trans ih.answered⟩

end Serves

end Server

end RemoteCalls.Arithmetic
