import RemoteCalls.Proofs.Client.Lifecycle
import RemoteCalls.Proofs.Client.Progress
import RemoteCalls.Transport.Memory

/-!
# RemoteCalls.Proofs.Client.CutOff

Responses that break off between header and body.

While the receiver reads a body, the latest header says what it has found: the call
the body belongs to, and whether that has failed at the peer (`Opened`).  When the
body breaks off, the receiver holds that call with its outcome and is about to
end, and nothing turns it back.  Whatever else is in flight then is given up by the
receiver, or withdrawn by the thread that could not write its request (`Fate`).

A call that has failed at the peer keeps the outcome that its header has brought,
although its response is incomplete; only a call that was still to get its reply
fails with the connection.
-/

namespace RemoteCalls

/-- The call whose response the receiver is reading. -/
def Receiver.answering? : Receiver → Option CallId
  | .skipping _ call => call
  | .reply _ id => some id
  | _ => none

/-- The fault that the reading of a frame has ended with. -/
def Frame.Progress.fault? {σ : Type} : Frame.Progress σ → Option Fault
  | .done _ (.error f) => some f
  | _ => none

theorem Frame.Progress.fault?_eq_some_iff {σ : Type} {progress : Frame.Progress σ} {f : Fault} :
    progress.fault? = some f ↔ ∃ state, progress = .done state (.error f) := by
  constructor
  · intro h
    unfold fault? at h
    split at h
    case h_1 state g =>
      obtain rfl := Option.some.inj h
      exact ⟨state, rfl⟩
    case h_2 => contradiction
  · rintro ⟨state, rfl⟩
    rfl

/-- A call is finished, with this outcome. -/
def Board.FinishedWith {ρ : Type} (b : Board ρ) (id : CallId) (status : Status) : Prop :=
  ∃ call, b.call? id = some call ∧ call.finished = true ∧ call.error = status

instance {ρ : Type} (b : Board ρ) (id : CallId) (status : Status) :
    Decidable (b.FinishedWith id status) :=
  decidable_of_iff ((b.call? id).any fun call => call.finished && call.error == status)
    (by simp [Board.FinishedWith, Option.any_eq_true])

namespace Client

open Board

variable {σ ρ : Type}

/-- What becomes of a call whose response breaks off behind this header. -/
def cutOffOutcome (h : Header) (f : Fault) : Status :=
  if h.error = [] then
    { code := .connectionFailure, message := .ofText "reading body", details := f.message }
  else { code := .remoteError, message := h.error }

/-- The call with this number is withdrawn in a step, because its request could not be written. -/
def Taken.Withdraws (s : Taken σ ρ) (seq : UInt64) (f : Fault) : Prop :=
  ∃ t id waits, s.move = .task t ∧ s.before.tasks[t]? = some (.send id waits (.withdrawing f)) ∧
    s.before.header.seq = seq

variable [ByteStream σ]

/-! ## The response that is being read -/

/-- The latest header that has been read is this one, and it has been found to belong to this
call. -/
def Answers (steps : List (Taken σ ρ)) (h : Header) (id : CallId) : Prop :=
  ∃ earlier s later, steps = earlier ++ s :: later ∧ s.move = .receive ∧
    s.before.receiver = .matching h ∧ s.before.board.registry.find? h.seq = some id ∧
    headersRead (later.flatMap Taken.events) = []

/-- What the receiver is reading, and what the call that it belongs to has been told. -/
inductive Opened (steps : List (Taken σ ρ)) (b : Board ρ) : Receiver → Prop where
  | skipping {stage : Frame.Stage} {id : CallId} {h : Header} {call : Call ρ}
      (hanswers : Answers steps h id) (herror : h.error ≠ []) (hcall : b.call? id = some call)
      (htold : call.error = remoteError h.error) : Opened steps b (.skipping stage (some id))
  | reply {stage : Frame.Stage} {id : CallId} {h : Header} (hanswers : Answers steps h id)
      (herror : h.error = []) : Opened steps b (.reply stage id)
  | other {place : Receiver} (hplace : place.answering? = none) : Opened steps b place

section Opened

variable {steps : List (Taken σ ρ)} {c c' : Client σ ρ} {move : Move ρ} {h : Header} {id : CallId}

/-- The latest header stays the latest until another is read. -/
theorem Answers.concat (hanswers : Answers steps h id)
    (hnone : headersRead (c.observe move) = []) : Answers (steps ++ [⟨c, move⟩]) h id := by
  obtain ⟨earlier, s, later, rfl, hmove, hat, hfind, hlater⟩ := hanswers
  refine ⟨earlier, s, later ++ [⟨c, move⟩], by simp, hmove, hat, hfind, ?_⟩
  rw [List.flatMap_append, List.flatMap_singleton, headersRead_append, hlater, List.nil_append]
  exact hnone

theorem answers_concat (hat : c.receiver = .matching h)
    (hfind : c.board.registry.find? h.seq = some id) : Answers (steps ++ [⟨c, .receive⟩]) h id :=
  ⟨steps, ⟨c, .receive⟩, [], rfl, rfl, hat, hfind, rfl⟩

/-- A receiver that does not have a header reads none. -/
theorem headersRead_observe_of_ne (hat : ∀ response, c.receiver ≠ .matching response) :
    headersRead (c.observe move) = [] := by
  obtain hnone | ⟨response, -, hmatching, -⟩ := c.headersRead_observe move
  · exact hnone
  · exact absurd hmatching (hat response)

/-- What the receiver has found is not changed by anyone else. -/
theorem Opened.keep (hopened : Opened steps c.board c.receiver) (hholding : c.Holding)
    (heffect : Effect c move c') (hmove : move ≠ .receive) :
    Opened (steps ++ [⟨c, move⟩]) c'.board c'.receiver := by
  rw [heffect.receiver_eq hmove]
  have hnone : headersRead (c.observe move) = [] := by
    obtain hnone | ⟨response, hreceive, -, -⟩ := c.headersRead_observe move
    · exact hnone
    · exact absurd hreceive hmove
  generalize hat : c.receiver = place at hopened
  cases hopened with
  | @skipping _ id h call hanswers herror hcall htold =>
      have hheld : id ∈ c.receiver.held := by simp [hat, Receiver.held]
      have hlt := (List.getElem?_eq_some_iff.mp hcall).1
      have hsame := heffect.call?_eq (hholding.not_mem_reach_of_receiver hheld hmove) hlt
      exact .skipping (hanswers.concat hnone) herror (hsame.trans hcall) htold
  | reply hanswers herror => exact .reply (hanswers.concat hnone) herror
  | other hplace => exact .other hplace

theorem Opened.receive (hopened : Opened steps c.board c.receiver) (hholding : c.Holding)
    {events : List (Event ρ)} (hchange : ReceiverChange c c.receiver events c') :
    Opened (steps ++ [⟨c, .receive⟩]) c'.board c'.receiver := by
  have hnone (hne : ∀ response, c.receiver ≠ .matching response) :
      headersRead (c.observe .receive) = [] := headersRead_observe_of_ne hne
  generalize hat : c.receiver = place at hopened hchange hnone
  cases hchange with
  | @matchError h id hfind herror =>
      obtain ⟨call, hcall, -⟩ := hholding.unfinished id (mem_holdings_of_find? hfind)
      exact .skipping (answers_concat hat hfind) herror (call?_modifyCall_self hcall _) rfl
  | matchReply hfind herror => exact .reply (answers_concat hat hfind) herror
  | skipWait =>
      cases hopened with
      | skipping hanswers herror hcall htold =>
          exact .skipping (hanswers.concat (hnone fun _ => Receiver.noConfusion)) herror hcall htold
      | other hplace => exact .other hplace
  | replyWait =>
      cases hopened with
      | reply hanswers herror =>
          exact .reply (hanswers.concat (hnone fun _ => Receiver.noConfusion)) herror
      | other hplace => exact .other hplace
  | @skipFail _ _ call => cases call <;> exact .other rfl
  | @skip _ _ call => cases call <;> exact .other rfl
  | @finish _ fault => cases fault <;> exact .other rfl
  | _ => exact .other rfl

/-- The receiver always knows what it is reading. -/
theorem Walk.opened {outside : σ → σ → Prop} {codec : Codec σ} {p : Preamble}
    {log : List Log.Entry} {order : Registry.Order}
    (walk : Walk outside (Client.start codec p log order) steps c) :
    Opened steps c.board c.receiver := by
  refine (walk.induct (P := fun steps c => Opened steps c.board c.receiver)
    (holding_start codec p log order) (.other rfl) ?_ fun _ hopened => hopened).2
  intro steps c c' move hholding hopened heffect
  by_cases hmove : move = .receive
  · subst hmove
    obtain ⟨events, hchange⟩ := heffect.of_receive
    exact hopened.receive hholding hchange
  · exact hopened.keep hholding heffect hmove

end Opened

/-! ## Coming to the end -/

section Ending

variable {c c' : Client σ ρ} {move : Move ρ} {f : Fault} {id : CallId} {status : Status}

/-- A receiver that has stopped reading does not read again, and comes closer to its end. -/
theorem ReceiverChange.ends {place : Receiver} {events : List (Event ρ)}
    (h : ReceiverChange c place events c') (hends : place.EndsWith f) :
    c'.receiver.EndsWith f ∧
      c'.receiver.stepsLeft c'.pendingCount 0 < place.stepsLeft c.pendingCount 0 := by
  cases h with
  | finish hfinish =>
      obtain rfl : _ = some f := hends
      refine ⟨rfl, ?_⟩
      simp only [pendingCount, registry_finish hfinish, afterCall, Receiver.stepsLeft]
      omega
  | report =>
      refine ⟨hends, ?_⟩
      simp only [pendingCount, noteReceiver, Receiver.stepsLeft]
      omega
  | lock =>
      refine ⟨hends, ?_⟩
      simp only [pendingCount, Receiver.stepsLeft]
      omega
  | take =>
      refine ⟨hends, ?_⟩
      simp [pendingCount, Receiver.stepsLeft]
  | terminate =>
      refine ⟨hends, ?_⟩
      simp [Receiver.stepsLeft]
  | terminated => exact ⟨trivial, by simp [Receiver.stepsLeft]⟩
  | unlock => exact ⟨trivial, by simp [Receiver.stepsLeft]⟩
  | _ => exact False.elim hends

/-- Nobody makes the receiver read again. -/
theorem Effect.endsWith (h : Effect c move c') (hends : c.receiver.EndsWith f) :
    c'.receiver.EndsWith f := by
  by_cases hmove : move = .receive
  · subst hmove
    obtain ⟨events, hchange⟩ := h.of_receive
    exact (hchange.ends hends).1
  · rwa [h.receiver_eq hmove]

/-- A receiver that has stopped reading never reads again. -/
theorem Walk.endsWith {outside : σ → σ → Prop} {later : List (Taken σ ρ)}
    (walk : Walk outside c later c') (hholding : c.Holding) (hends : c.receiver.EndsWith f) :
    c'.receiver.EndsWith f :=
  (walk.induct (P := fun _ c' => c'.receiver.EndsWith f) hholding hends
    (fun _ _ hends heffect => heffect.endsWith hends) fun _ hends => hends).2

/-- A receiver that has stopped reading goes on until it has ended, unless it has to wait for the
send lock or for room in a queue. -/
theorem Holding.ends_or_waits (h : c.Holding) (hlocked : c.Locked) (hstocked : c.board.Stocked)
    (hends : c.receiver.EndsWith f) (hne : c.receiver ≠ .exited) :
    (∃ c', c.step .receive = .moved c' ∧
      c'.receiver.stepsLeft c'.pendingCount 0 < c.receiver.stepsLeft c.pendingCount 0) ∨
    (c.receiver = .locking f ∧ ∃ t, c.lock = some (.task t)) ∨
    ∃ queue, c.WaitsForRoom .receive queue := by
  have hcloser {c' : Client σ ρ} (hstep : c.step .receive = .moved c') :
      c'.receiver.stepsLeft c'.pendingCount 0 < c.receiver.stepsLeft c.pendingCount 0 := by
    obtain ⟨events, hchange⟩ := (effect_of_step h.readsReply hstep).of_receive
    exact (hchange.ends hends).2
  suffices hgoes : (∃ c', c.step .receive = .moved c') ∨
      (c.receiver = .locking f ∧ ∃ t, c.lock = some (.task t)) ∨
      ∃ queue, c.WaitsForRoom .receive queue from
    hgoes.imp_left fun ⟨c', hstep⟩ => ⟨c', hstep, hcloser hstep⟩
  have hdelivers (other : CallId) (hpushes : c.pushes? .receive = some other) :
      (∃ c', c.step .receive = .moved c') ∨
        (c.receiver = .locking f ∧ ∃ t, c.lock = some (.task t)) ∨
        ∃ queue, c.WaitsForRoom .receive queue :=
    (h.moves_or_waits hlocked hstocked hpushes).imp_right .inr
  cases hat : c.receiver with
  | finishing other fault => exact hat ▸ hdelivers other (by simp [pushes?, finishing?, hat])
  | terminating g ids =>
      cases ids with
      | nil => exact .inl (by simp [step, stepReceiver, hat])
      | cons other ids => exact hat ▸ hdelivers other (by simp [pushes?, finishing?, hat])
  | locking g =>
      obtain rfl : g = f := by simpa [hat, Receiver.EndsWith] using hends
      cases hlock : c.lock with
      | none => exact .inl (by simp [step, stepReceiver, hat, hlock])
      | some holder =>
          cases holder with
          | task t => exact .inr (.inl ⟨rfl, t, rfl⟩)
          | receiver =>
              have hinside := hlocked.receiver.mp hlock
              rw [hat] at hinside
              contradiction
  | exited => exact absurd hat hne
  | stopping g => exact .inl (by simp [step, stepReceiver, hat])
  | taking g => exact .inl (by simp [step, stepReceiver, hat])
  | unlocking => exact .inl (by simp [step, stepReceiver, hat])
  | _ =>
      rw [hat] at hends
      exact hends.elim

/-! ## Outcomes -/

/-- A call that is finished keeps its outcome. -/
theorem Effect.finishedWith (h : Effect c move c') (hholding : c.Holding)
    (hdone : c.board.FinishedWith id status) : c'.board.FinishedWith id status := by
  obtain ⟨call, hcall, hfinished, herror⟩ := hdone
  have hlt := (List.getElem?_eq_some_iff.mp hcall).1
  have hsame := h.call?_eq (hholding.not_mem_reach_of_finished hcall hfinished) hlt
  exact ⟨call, hsame.trans hcall, hfinished, herror⟩

/-- A call that is finished is finished with the outcome that it has. -/
theorem finishedWith_of_finish {b b' : Board ρ} {call : Call ρ} (hfinish : b.finish id = .moved b')
    (hcall : b.call? id = some call) : b'.FinishedWith id call.error := by
  obtain ⟨call', queue, q, hcall', -, -, -, -, rfl⟩ := finish_delivered hfinish
  refine ⟨{ call with finished := true }, ?_, rfl, rfl⟩
  rw [call?_delivered, if_pos rfl, hcall, Option.map_some]

/-- The receiver finishes the call that it holds with the outcome that the call has. -/
theorem Walk.answered {outside : σ → σ → Prop} {later : List (Taken σ ρ)} {call : Call ρ}
    {fault : Option Fault} (walk : Walk outside c later c') (hholding : c.Holding)
    (hat : c.receiver = .finishing id fault) (hcall : c.board.call? id = some call) :
    c'.receiver = .finishing id fault ∨ c'.board.FinishedWith id call.error := by
  refine (walk.induct (P := fun _ c' => (c'.receiver = .finishing id fault ∧
    c'.board.call? id = some call) ∨ c'.board.FinishedWith id call.error) hholding
    (.inl ⟨hat, hcall⟩) ?_ fun _ h => h).2.imp_left And.left
  rintro steps c c' move hholding (⟨hat, hcall⟩ | hdone) heffect
  · by_cases hmove : move = .receive
    · subst hmove
      obtain ⟨events, hchange⟩ := heffect.of_receive
      rw [hat] at hchange
      cases hchange with
      | finish hfinish => exact .inr (finishedWith_of_finish hfinish hcall)
    · have hheld : id ∈ c.receiver.held := by simp [hat, Receiver.held]
      have hlt := (List.getElem?_eq_some_iff.mp hcall).1
      have hsame := heffect.call?_eq (hholding.not_mem_reach_of_receiver hheld hmove) hlt
      exact .inl ⟨(heffect.receiver_eq hmove).trans hat, hsame.trans hcall⟩
  · exact .inr (heffect.finishedWith hholding hdone)

end Ending

/-! ## Calls that are given up -/

/-- What becomes of a call that is in flight when the receiver has stopped reading. -/
inductive Fate (f : Fault) (later : List (Taken σ ρ)) (seq : UInt64) (id : CallId)
    (c : Client σ ρ) : Prop where
  | inFlight (hfind : c.board.registry.find? seq = some id) (htaken : c.receiver.hasTaken = false)
  | withdrawn {t : TaskId} {own : CallId} {waits : Bool} {call : Call ρ} {g : Fault}
      (htask : c.tasks[t]? = some (.send own waits (.finishing id)))
      (hcall : c.board.call? id = some call) (herror : call.error = sendFailure g)
      (hwithdraws : ∃ s ∈ later, s.Withdraws seq g) (htaken : c.receiver.hasTaken = false)
  | givenUp {ids : List CallId} (hat : c.receiver = .terminating f ids) (hid : id ∈ ids)
  | lost (hdone : c.board.FinishedWith id (connectionLost f))
  | unsent {g : Fault} (hdone : c.board.FinishedWith id (sendFailure g))
      (hwithdraws : ∃ s ∈ later, s.Withdraws seq g)

section Fate

variable {later : List (Taken σ ρ)} {c c' : Client σ ρ} {move : Move ρ} {f : Fault}
  {seq : UInt64} {id : CallId}

/-- A call in flight stays in flight, as far as the application is concerned, unless it is
withdrawn. -/
theorem Effect.inFlight (h : Effect c move c') (hholding : c.Holding) (hmove : move ≠ .receive)
    (hfind : c.board.registry.find? seq = some id) :
    c'.board.registry.find? seq = some id ∨
      ∃ (t : TaskId) (own : CallId) (waits : Bool) (call : Call ρ) (g : Fault),
        c'.tasks[t]? = some (.send own waits (.finishing id)) ∧
        c'.board.call? id = some call ∧ call.error = sendFailure g ∧
        Taken.Withdraws ⟨c, move⟩ seq g := by
  have hkept {registry : Registry} (heq : registry = c.board.registry) :
      registry.find? seq = some id := heq ▸ hfind
  cases h with
  | collect hpop =>
      obtain ⟨q, q', -, -, rfl⟩ := pop?_eq_some hpop
      exact .inl hfind
  | @send t own waits _ _ _ _ htask _ h =>
      have hlt := (List.getElem?_eq_some_iff.mp htask).1
      cases h with
      | register => exact .inl (Registry.find?_filed hfind own)
      | @withdraw g other hother =>
          by_cases hseq : c.header.seq = seq
          · obtain rfl : other = id := by
              rw [hseq, hfind] at hother
              exact (Option.some.inj hother).symm
            obtain ⟨call, hcall, -⟩ := hholding.unfinished other (mem_holdings_of_find? hfind)
            exact .inr ⟨t, own, waits, _, g, List.getElem?_set_self hlt,
              call?_modifyCall_self hcall _, rfl, t, own, waits, rfl, htask, hseq⟩
          · exact .inl ((Registry.find?_remove_of_ne hseq).trans hfind)
      | finish hfinish => exact .inl (hkept (registry_finish hfinish))
      | collect _ hpop =>
          obtain ⟨q, q', -, -, rfl⟩ := pop?_eq_some hpop
          exact .inl hfind
      | _ => exact .inl hfind
  | closing _ h => cases h <;> exact .inl hfind
  | receive => exact absurd rfl hmove
  | _ => exact .inl hfind

/-- The receiver gives a call up that is in flight, but not while a thread holds the send lock. -/
theorem Fate.inFlight_receive {events : List (Event ρ)}
    (hchange : ReceiverChange c c.receiver events c') (hends : c.receiver.EndsWith f)
    (hfind : c.board.registry.find? seq = some id) (htaken : c.receiver.hasTaken = false) :
    Fate f later seq id c' := by
  generalize c.receiver = place at hchange hends htaken
  cases hchange with
  | finish hfinish =>
      exact .inFlight ((congrArg (·.find? seq) (registry_finish hfinish)).trans hfind)
        (Receiver.hasTaken_afterCall _)
  | report => exact .inFlight hfind rfl
  | lock => exact .inFlight hfind rfl
  | take =>
      obtain rfl : _ = f := hends
      refine .givenUp rfl ?_
      exact mem_takeAll.mpr (mem_pending_of_find? hfind)
  | terminate => contradiction
  | terminated => contradiction
  | unlock => contradiction
  | _ => exact hends.elim

/-- A call that is withdrawn is finished by the thread that withdraws it. -/
theorem Fate.withdrawn_effect {t : TaskId} {own : CallId} {waits : Bool} {call : Call ρ} {g : Fault}
    (heffect : Effect c move c') (hholding : c.Holding) (hlocked : c.Locked)
    (htask : c.tasks[t]? = some (.send own waits (.finishing id)))
    (hcall : c.board.call? id = some call) (herror : call.error = sendFailure g)
    (hwithdraws : ∃ s ∈ later, s.Withdraws seq g) (htaken : c.receiver.hasTaken = false) :
    Fate f later seq id c' := by
  by_cases hmove : move = .task t
  · subst hmove
    obtain ⟨_, _, -, hchange⟩ | ⟨hphase, -⟩ := heffect.of_send htask
    · cases hchange with
      | finish hfinish =>
          exact .unsent (herror ▸ finishedWith_of_finish hfinish hcall) hwithdraws
    · contradiction
  · have hsame := heffect.call?_eq (hholding.not_mem_reach_of_task htask rfl hmove)
      (List.getElem?_eq_some_iff.mp hcall).1
    refine .withdrawn ((heffect.task_eq hmove (List.getElem?_eq_some_iff.mp htask).1).trans htask)
      (hsame.trans hcall) herror hwithdraws ?_
    rw [heffect.hasTaken_eq, htaken, hlocked.givesUp_eq_false htask rfl, Bool.or_false]

/-- A call that is given up is finished by the receiver. -/
theorem Fate.givenUp_effect {ids : List CallId} (heffect : Effect c move c')
    (hat : c.receiver = .terminating f ids) (hid : id ∈ ids) : Fate f later seq id c' := by
  by_cases hmove : move = .receive
  · subst hmove
    obtain ⟨events, hchange⟩ := heffect.of_receive
    rw [hat] at hchange
    cases hchange with
    | @terminate _ other ids b hfinish =>
        obtain ⟨hsame, -⟩ := call?_finishWith hfinish id
        by_cases hother : other = id
        · obtain ⟨call, -, -, hcall⟩ := hsame hother
          exact .lost ⟨_, hcall, rfl, rfl⟩
        · exact .givenUp rfl ((List.mem_cons.mp hid).resolve_left (Ne.symm hother))
    | terminated => contradiction
  · exact .givenUp ((heffect.receiver_eq hmove).trans hat) hid

omit [ByteStream σ] in
theorem Fate.mono {more : List (Taken σ ρ)} (h : Fate f later seq id c) (hmore : later ⊆ more) :
    Fate f more seq id c := by
  have hkept {g : Fault} (hwithdraws : ∃ s ∈ later, s.Withdraws seq g) :
      ∃ s ∈ more, s.Withdraws seq g := by
    obtain ⟨s, hs, hwithdraws⟩ := hwithdraws
    exact ⟨s, hmore hs, hwithdraws⟩
  cases h with
  | inFlight hfind htaken => exact .inFlight hfind htaken
  | withdrawn htask hcall herror hwithdraws htaken =>
      exact .withdrawn htask hcall herror (hkept hwithdraws) htaken
  | givenUp hat hid => exact .givenUp hat hid
  | lost hdone => exact .lost hdone
  | unsent hdone hwithdraws => exact .unsent hdone (hkept hwithdraws)

/-- What has become of a call goes on with every step. -/
theorem Fate.effect (h : Fate f later seq id c) (heffect : Effect c move c') (hholding : c.Holding)
    (hlocked : c.Locked) (hends : c.receiver.EndsWith f) :
    Fate f (later ++ [⟨c, move⟩]) seq id c' := by
  have h := h.mono (List.subset_append_left later [⟨c, move⟩])
  cases h with
  | inFlight hfind htaken =>
      by_cases hmove : move = .receive
      · subst hmove
        obtain ⟨events, hchange⟩ := heffect.of_receive
        exact Fate.inFlight_receive hchange hends hfind htaken
      · have hstill : c'.receiver.hasTaken = false := by rwa [heffect.receiver_eq hmove]
        obtain hfind | ⟨t, own, waits, call, g, htask, hcall, herror, hwithdraws⟩ :=
          heffect.inFlight hholding hmove hfind
        · exact .inFlight hfind hstill
        · exact .withdrawn htask hcall herror ⟨_, by simp, hwithdraws⟩ hstill
  | withdrawn htask hcall herror hwithdraws htaken =>
      exact Fate.withdrawn_effect heffect hholding hlocked htask hcall herror hwithdraws htaken
  | givenUp hat hid => exact Fate.givenUp_effect heffect hat hid
  | lost hdone => exact .lost (heffect.finishedWith hholding hdone)
  | unsent hdone hwithdraws => exact .unsent (heffect.finishedWith hholding hdone) hwithdraws

omit [ByteStream σ] in
/-- No call is left over when the receiver has ended. -/
theorem Fate.of_exited (h : Fate f later seq id c) (hexited : c.receiver = .exited) :
    c.board.FinishedWith id (connectionLost f) ∨
      ∃ g, c.board.FinishedWith id (sendFailure g) ∧ ∃ s ∈ later, s.Withdraws seq g := by
  cases h with
  | inFlight _ htaken =>
      rw [hexited] at htaken
      contradiction
  | withdrawn _ _ _ _ htaken =>
      rw [hexited] at htaken
      contradiction
  | givenUp hat =>
      rw [hexited] at hat
      contradiction
  | lost hdone => exact .inl hdone
  | unsent hdone hwithdraws => exact .inr ⟨_, hdone, hwithdraws⟩

/-- What becomes of a call that is in flight when the receiver has stopped reading, whatever anyone
does. -/
theorem Walk.fate {outside : σ → σ → Prop} (walk : Walk outside c later c') (hholding : c.Holding)
    (hlocked : c.Locked) (hends : c.receiver.EndsWith f)
    (hfind : c.board.registry.find? seq = some id) (htaken : c.receiver.hasTaken = false) :
    Fate f later seq id c' := by
  refine (walk.induct (P := fun later c' => c'.Locked ∧ c'.receiver.EndsWith f ∧
    Fate f later seq id c') hholding ⟨hlocked, hends, .inFlight hfind htaken⟩ ?_ ?_).2.2.2
  · rintro steps c c' move hholding ⟨hlocked, hends, hfate⟩ heffect
    exact ⟨hlocked.effect heffect, heffect.endsWith hends,
      hfate.effect heffect hholding hlocked hends⟩
  · rintro steps c stream ⟨⟨howners, hholder, hreceiver⟩, hends, hfate⟩
    refine ⟨⟨howners, hholder, hreceiver⟩, hends, ?_⟩
    cases hfate with
    | inFlight hfind htaken => exact .inFlight hfind htaken
    | withdrawn htask hcall herror hwithdraws htaken =>
        exact .withdrawn htask hcall herror hwithdraws htaken
    | givenUp hat hid => exact .givenUp hat hid
    | lost hdone => exact .lost hdone
    | unsent hdone hwithdraws => exact .unsent hdone hwithdraws

end Fate

/-! ## A response that breaks off -/

section Break

variable {outside : σ → σ → Prop} {codec : Codec σ} {p : Preamble} {log : List Log.Entry}
  {order : Registry.Order} {steps : List (Taken σ ρ)} {c : Client σ ρ} {stage : Frame.Stage}
  {f : Fault} {id : CallId}

/-- A receiver whose body breaks off is about to finish the call that it belongs to, and to end. -/
theorem Opened.cutOff (hopened : Opened steps c.board c.receiver) (hholding : c.Holding)
    (hanswering : c.receiver.answering? = some id) (hstage : c.receiver.bodyStage = some stage)
    (hread : (c.codec.resume stage).fault? = some f) (hbroken : f ≠ .bodyDecodeFailed) :
    ∃ h c₁ call, Answers steps h id ∧ c.step .receive = .moved c₁ ∧
      c₁.receiver = .finishing id (some f) ∧ c₁.board.call? id = some call ∧
      call.error = cutOffOutcome h f := by
  obtain ⟨codec', hread⟩ := Frame.Progress.fault?_eq_some_iff.mp hread
  generalize hat : c.receiver = place at hopened hanswering hstage
  cases hopened with
  | @skipping stage' id' h call hanswers herror hcall htold =>
      obtain rfl := Option.some.inj hanswering
      obtain rfl := Option.some.inj hstage
      refine ⟨h, { c with codec := codec', receiver := .finishing id' (some f) }, call, hanswers,
        ?_, rfl, hcall, ?_⟩
      · simp only [step, stepReceiver, hat, stepFrame, hread, onSkipped, BodyReader.receive]
      · exact htold.trans (if_neg herror).symm
  | @reply stage' id' h hanswers herror =>
      obtain rfl := Option.some.inj hanswering
      obtain rfl := Option.some.inj hstage
      have hheld : id' ∈ c.receiver.held := by simp [hat, Receiver.held]
      obtain ⟨call, hcall, -⟩ := hholding.unfinished id' (mem_holdings_of_receiver hheld)
      refine ⟨h, noteReceiver
          { c with
            codec := codec'
            board := c.board.modifyCall id'
              ({ · with reply := call.reply, error := replyFailure .connectionFailure f })
            receiver := .finishing id' (some f) } [],
        _, hanswers, ?_, rfl, call?_modifyCall_self hcall _, ?_⟩
      · simp only [step, stepReceiver, hat, stepFrame, hread, onReply, hcall, BodyReader.receive,
          replyOutcome_of_ne hbroken]
      · exact (if_pos herror).symm
  | other hplace =>
      rw [hplace] at hanswering
      contradiction

/-- **What follows when a response breaks off.**  The call that the response belongs to has its
outcome then: that of its header if it has failed at the peer, else that of a connection that has
failed; and it is finished with that.  The receiver leaves its loop and never reads again.  It goes
on until it has ended, unless it has to wait for the send lock or for room in a queue.  When it has
ended, every call that was still in flight at any time since is finished with the fault of the
connection, except one whose own request could not be written. -/
theorem response_cut_off (walk : Walk outside (start codec p log order) steps c)
    (hanswering : c.receiver.answering? = some id) (hstage : c.receiver.bodyStage = some stage)
    (hread : (c.codec.resume stage).fault? = some f) (hbroken : f ≠ .bodyDecodeFailed) :
    ∃ h c₁, Answers steps h id ∧ c.step .receive = .moved c₁ ∧
      c₁.receiver = .finishing id (some f) ∧
      ∀ later c₂, Walk outside c₁ later c₂ →
        c₂.receiver.EndsWith f ∧
        (c₂.receiver = .finishing id (some f) ∨ c₂.board.FinishedWith id (cutOffOutcome h f)) ∧
        (c₂.receiver ≠ .exited →
          (∃ c₃, c₂.step .receive = .moved c₃ ∧
            c₃.receiver.stepsLeft c₃.pendingCount 0 < c₂.receiver.stepsLeft c₂.pendingCount 0) ∨
          (c₂.receiver = .locking f ∧ ∃ t, c₂.lock = some (.task t)) ∨
          ∃ queue, c₂.WaitsForRoom .receive queue) ∧
        ∀ last c₃ seq other, Walk outside c₂ last c₃ → c₃.receiver = .exited →
          c₂.board.registry.find? seq = some other →
          c₃.board.FinishedWith other
            { code := .connectionFailure
              message := .ofText "connection has been shut down"
              details := f.message } ∨
          ∃ g, c₃.board.FinishedWith other
            { code := .sendFailure, message := .ofText "writing request", details := g.message } ∧
            ∃ s ∈ last, s.Withdraws seq g := by
  obtain ⟨h, c₁, call, hanswers, hstep, hat, hcall, htold⟩ :=
    walk.opened.cutOff walk.holding hanswering hstage hread hbroken
  have walk₁ := walk.step .receive hstep
  have hends : c₁.receiver.EndsWith f := by rw [hat]; rfl
  refine ⟨h, c₁, hanswers, hstep, hat, fun later c₂ more => ?_⟩
  have walk₂ := walk₁.trans more
  have hends₂ := more.endsWith walk₁.holding hends
  refine ⟨hends₂, htold ▸ more.answered walk₁.holding hat hcall,
    walk₂.holding.ends_or_waits walk₂.locked walk₂.stocked hends₂,
    fun last c₃ seq other rest hexited hfind => ?_⟩
  have htaken := walk₂.tally.hasTaken_of_find? hfind
  exact (rest.fate walk₂.holding walk₂.locked hends₂ hfind htaken).of_exited hexited

/-- A connection that brings this header, and ends within the body behind it. -/
def cutOffAfter (h : Header) : MemoryStream :=
  { incoming := Frame.encode h.encode ++ [4, 0, 0, 0, 1, 2], ended := true }

/-- Two calls, until the receiver reads the body of a response. -/
def twoCallsInFlight : List (Move Unit) :=
  [.go { reply := () } none, .go { reply := () } none,
    .task 0, .task 0, .task 0, .task 0, .task 0,
    .task 1, .task 1, .task 1, .task 1, .task 1, .receive, .receive]

/-- A reply breaks off while another call is in flight, and both calls fail with the connection. -/
theorem response_cut_off_two_calls :
    ∃ (steps later : List (Taken MemoryStream Unit)) (c c₁ c₂ : Client MemoryStream Unit),
      Walk (fun _ _ => True) (start { stream := cutOffAfter { seq := 1 } } {} []) steps c ∧
      c.receiver.answering? = some 0 ∧ c.receiver.bodyStage = some .size ∧
      (c.codec.resume .size).fault? = some .connectionClosed ∧
      c.step .receive = .moved c₁ ∧ Walk (fun _ _ => True) c₁ later c₂ ∧ c₂.receiver = .exited ∧
      ∃ h, Answers steps h 0 ∧ c₂.board.FinishedWith 0 (cutOffOutcome h .connectionClosed) ∧
        (c₂.board.FinishedWith 1 (connectionLost .connectionClosed) ∨
          ∃ g, c₂.board.FinishedWith 1 (sendFailure g)) := by
  have hcourse : ((start { stream := cutOffAfter { seq := 1 } } {} []).course
      twoCallsInFlight).any (fun (_, c) =>
        c.receiver.answering? = some 0 && c.receiver.bodyStage = some .size &&
        (c.codec.resume .size).fault? = some .connectionClosed &&
        (c.course [.receive]).any fun (_, c₁) => c₁.board.registry.find? 2 = some 1 &&
          (c₁.course (List.replicate 7 .receive)).any fun (_, c₂) =>
            c₂.receiver = .exited) = true := by
    decide +kernel
  obtain ⟨steps, c, walk, hchecks⟩ := exists_walk_of_course (fun _ _ => True) hcourse
  simp only [Bool.and_eq_true, decide_eq_true_eq] at hchecks
  obtain ⟨⟨⟨hanswering, hstage⟩, hread⟩, hnext⟩ := hchecks
  obtain ⟨h, c₁, hanswers, hstep, -, hlater⟩ :=
    response_cut_off walk hanswering hstage hread (by decide)
  simp only [course, hstep, Option.map_some, Option.any_some, Bool.and_eq_true,
    decide_eq_true_eq] at hnext
  obtain ⟨hfind, hlast⟩ := hnext
  obtain ⟨later, c₂, more, hexited⟩ := exists_walk_of_course (fun _ _ => True) hlast
  have hexited : c₂.receiver = .exited := by simpa using hexited
  obtain ⟨-, hmine, -⟩ := hlater later c₂ more
  obtain ⟨-, -, -, hothers⟩ := hlater [] c₁ .start
  refine ⟨steps, later, c, c₁, c₂, walk, hanswering, hstage, hread, hstep, more, hexited, h,
    hanswers, hmine.resolve_left (by simp [hexited]), ?_⟩
  obtain hlost | ⟨g, hunsent, -⟩ := hothers later c₂ 2 1 more hexited hfind
  · exact .inl hlost
  · exact .inr ⟨g, hunsent⟩

/-- **A call that has failed at the peer keeps that outcome when its response breaks off.**  It does
not fail with the connection, unlike the other call in flight. -/
theorem not_connection_failure_of_cut_off :
    ∃ (steps later : List (Taken MemoryStream Unit)) (c c₂ : Client MemoryStream Unit),
      Walk (fun _ _ => True)
        (start { stream := cutOffAfter { seq := 1, error := [98, 111, 111, 109] } } {} []) steps c ∧
      (∃ h, Answers steps h 0) ∧ c.receiver = .skipping .size (some 0) ∧
      (c.codec.resume .size).fault? = some .connectionClosed ∧
      Walk (fun _ _ => True) c later c₂ ∧ c₂.receiver = .exited ∧
      c₂.board.FinishedWith 1
        { code := .connectionFailure
          message := .ofText "connection has been shut down"
          details := .ofText "connection closed" } ∧
      c₂.board.FinishedWith 0 { code := .remoteError, message := [98, 111, 111, 109] } ∧
      ∀ status, c₂.board.FinishedWith 0 status → status.code ≠ .connectionFailure := by
  have hcourse : ((start { stream := cutOffAfter { seq := 1, error := [98, 111, 111, 109] } }
      {} []).course twoCallsInFlight).any (fun (_, c) =>
        c.receiver = .skipping .size (some 0) &&
        (c.codec.resume .size).fault? = some .connectionClosed &&
        (c.course (List.replicate 8 .receive)).any fun (_, c₂) =>
          c₂.receiver = .exited &&
            decide (c₂.board.FinishedWith 1 (connectionLost .connectionClosed)) &&
            decide (c₂.board.FinishedWith 0 (remoteError [98, 111, 111, 109]))) = true := by
    decide +kernel
  obtain ⟨steps, c, walk, hchecks⟩ := exists_walk_of_course (fun _ _ => True) hcourse
  simp only [Bool.and_eq_true, decide_eq_true_eq] at hchecks
  obtain ⟨⟨hat, hread⟩, hnext⟩ := hchecks
  obtain ⟨later, c₂, more, hchecks⟩ := exists_walk_of_course (fun _ _ => True) hnext
  simp only [Bool.and_eq_true, decide_eq_true_eq] at hchecks
  obtain ⟨⟨hexited, hother⟩, hmine⟩ := hchecks
  have hanswers : ∃ h, Answers steps h 0 := by
    obtain ⟨h, -, -, hanswers, -⟩ := walk.opened.cutOff walk.holding (by rw [hat]; rfl)
      (by rw [hat]; rfl) hread (by decide)
    exact ⟨h, hanswers⟩
  refine ⟨steps, later, c, c₂, walk, hanswers, hat, hread, more, hexited, hother, hmine, ?_⟩
  rintro status ⟨call, hcall, -, rfl⟩
  obtain ⟨call', hcall', -, htold⟩ := hmine
  rw [Option.some.inj (hcall.symm.trans hcall'), htold]
  decide

end Break

end Client

end RemoteCalls
