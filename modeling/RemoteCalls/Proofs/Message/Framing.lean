import RemoteCalls.Bytes.Lemmas
import RemoteCalls.Message.Frame
import RemoteCalls.Proofs.Transport.Contracts
import RemoteCalls.Value.Ty

/-!
# RemoteCalls.Proofs.Message.Framing

Reading frames from a connection that gives certain octets, sooner or later, and
then fails (`Delivery`).

What a read of a frame makes of the octets is told by the octets alone:
`resume_done` and `resume_waiting` say what they were, and `Broken` which octets
hold no frame, and how that is reported.
-/

namespace RemoteCalls

namespace Frame

/-! ## Octets of frames -/

/-- Whether a payload can be sent in a frame of at most `limit` octets. -/
structure Fits (limit : Nat) (payload : Bytes) : Prop where
  limit : payload.length ≤ limit
  count : payload.length < Ty.countLimit

/-- Octets at whose front there is no frame of at most `limit` octets, and the fault of reading one
there, if the end is reported as `ending`. -/
inductive Broken (limit : Nat) (ending : Fault) : Bytes → Fault → Prop where
  | count {bytes : Bytes} (h : bytes.length < 4) : Broken limit ending bytes ending
  | tooLarge {n : Nat} (rest : Bytes) (h : limit < n) (hn : n < Ty.countLimit) :
      Broken limit ending (.ofNatLE 4 n ++ rest) .objectTooLarge
  | payload {n : Nat} {rest : Bytes} (h : n ≤ limit) (hn : n < Ty.countLimit)
      (hrest : rest.length < n) : Broken limit ending (.ofNatLE 4 n ++ rest) ending

/-- A count and what stands behind it can be told apart. -/
theorem ofNatLE_append_inj {n m : Nat} {x y : Bytes} (hn : n < Ty.countLimit)
    (hm : m < Ty.countLimit) (h : Bytes.ofNatLE 4 n ++ x = Bytes.ofNatLE 4 m ++ y) :
    n = m ∧ x = y := by
  obtain ⟨hcount, hrest⟩ := List.append_inj h (by simp)
  have hvalue := congrArg Bytes.toNatLE hcount
  rw [Bytes.toNatLE_ofNatLE_of_lt (by simpa [Ty.countLimit] using hn),
    Bytes.toNatLE_ofNatLE_of_lt (by simpa [Ty.countLimit] using hm)] at hvalue
  exact ⟨hvalue, hrest⟩

/-- A frame and what stands behind it can be told apart. -/
theorem encode_append_inj {limit limit' : Nat} {p q x y : Bytes} (hp : Fits limit p)
    (hq : Fits limit' q) (h : encode p ++ x = encode q ++ y) : p = q ∧ x = y := by
  rw [encode, encode, List.append_assoc, List.append_assoc] at h
  obtain ⟨hlen, hrest⟩ := ofNatLE_append_inj hp.count hq.count h
  exact List.append_inj hrest hlen

/-- There is no frame at the front of octets that hold none. -/
theorem Broken.ne_encode {limit : Nat} {ending fault : Fault} {bytes : Bytes}
    (h : Broken limit ending bytes fault) {payload : Bytes} (hfits : Fits limit payload)
    (rest : Bytes) : bytes ≠ encode payload ++ rest := by
  rintro rfl
  generalize hall : encode payload ++ rest = bytes at h
  rw [encode, List.append_assoc] at hall
  cases h with
  | count hlen =>
      rw [← hall, List.length_append, Bytes.length_ofNatLE] at hlen
      omega
  | tooLarge rest' hlarge hn =>
      obtain ⟨rfl, -⟩ := ofNatLE_append_inj hfits.count hn hall
      have hlimit := hfits.limit
      omega
  | payload hn hcount hlen =>
      obtain ⟨rfl, rfl⟩ := ofNatLE_append_inj hfits.count hcount hall
      rw [List.length_append] at hlen
      omega

/-- A frame that is cut off anywhere is no frame, and reading it comes to the end. -/
theorem broken_of_prefix {limit : Nat} {ending : Fault} {payload part : Bytes}
    (hfits : Fits limit payload) (hpart : part <+: encode payload) (hcut : part ≠ encode payload) :
    Broken limit ending part ending := by
  obtain ⟨rest, hrest⟩ := hpart
  rw [encode] at hrest hcut
  rcases List.append_eq_append_iff.mp hrest with ⟨more, hmore, -⟩ | ⟨begun, rfl, hbegun⟩
  · by_cases hall : part = Bytes.ofNatLE 4 payload.length
    · have hne : payload ≠ [] := by
        rintro rfl
        exact hcut (hall.trans (List.append_nil _).symm)
      rw [hall, ← List.append_nil (Bytes.ofNatLE 4 payload.length)]
      exact .payload hfits.limit hfits.count (List.length_pos_iff.mpr hne)
    · have hlen := congrArg List.length hmore
      rw [Bytes.length_ofNatLE, List.length_append] at hlen
      have hne : more ≠ [] := by
        rintro rfl
        exact hall (hmore.trans (List.append_nil _)).symm
      have hpos := List.length_pos_iff.mpr hne
      exact .count (by omega)
  · have hlen := congrArg List.length hbegun
    rw [List.length_append] at hlen
    have hne : rest ≠ [] := by
      rintro rfl
      rw [List.append_nil] at hbegun
      exact hcut (hbegun ▸ rfl)
    have hpos := List.length_pos_iff.mpr hne
    exact .payload hfits.limit hfits.count (by omega)

/-- Octets that begin with a count. -/
theorem count_append_drop {bytes : Bytes} (h : 4 ≤ bytes.length) :
    Bytes.ofNatLE 4 (Bytes.toNatLE (bytes.take 4)) ++ bytes.drop 4 = bytes ∧
      Bytes.toNatLE (bytes.take 4) < Ty.countLimit := by
  have hlen : (bytes.take 4).length = 4 := List.length_take_of_le h
  have hback := Bytes.ofNatLE_toNatLE (bytes.take 4)
  have hlt := Bytes.toNatLE_lt (bytes.take 4)
  rw [hlen] at hback hlt
  exact ⟨by rw [hback, List.take_append_drop], by simpa [Ty.countLimit] using hlt⟩

/-! ## What reading leaves -/

/-- The state that a read leaves, whether it is done or has to wait. -/
def Progress.state {σ : Type} : Progress σ → σ
  | waiting _ state => state
  | done state _ => state

theorem Progress.state_map {σ τ : Type} (f : σ → τ) (p : Progress σ) :
    (p.map f).state = f p.state := by
  cases p <;> rfl

section Map

variable {σ τ : Type} {f : σ → τ} {p : Progress σ} {state : τ}

theorem Progress.eq_done_of_map {result : Except Fault Bytes} (h : p.map f = .done state result) :
    ∃ before, p = .done before result ∧ f before = state := by
  cases p with
  | waiting stage before => contradiction
  | done before got =>
      obtain ⟨hstate, rfl⟩ := Progress.done.inj h
      exact ⟨before, rfl, hstate⟩

theorem Progress.eq_waiting_of_map {stage : Stage} (h : p.map f = .waiting stage state) :
    ∃ before, p = .waiting stage before ∧ f before = state := by
  cases p with
  | done before got => contradiction
  | waiting reached before =>
      obtain ⟨rfl, hstate⟩ := Progress.waiting.inj h
      exact ⟨before, rfl, hstate⟩

end Map

section State

variable {σ : Type} [ByteStream σ] {P : σ → Prop}
  (hread : ∀ {s s' : σ} {count : Nat} {got : Bytes} {fault : Option Fault}, P s →
    ByteStream.read count s = .done s' got fault → P s')

include hread

theorem readPayload_state (count : Nat) {i : Input σ} (h : P i.stream) :
    P (readPayload count i).state.stream := by
  rw [readPayload]
  cases hgot : ByteStream.read count i.stream with
  | waiting => exact h
  | done stream bytes fault => exact hread h hgot

/-- What every read of a connection keeps, reading a frame keeps. -/
theorem resume_state (limit : Nat) (stage : Stage) {i : Input σ} (h : P i.stream) :
    P (resume limit stage i).state.stream := by
  cases stage with
  | payload count => exact readPayload_state hread count h
  | size =>
      rw [resume]
      cases hgot : ByteStream.read 4 i.stream with
      | waiting => exact h
      | done stream bytes fault =>
          have hcount : P stream := hread h hgot
          cases fault with
          | some f => exact hcount
          | none =>
              simp only
              split
              case isTrue => exact hcount
              case isFalse => exact readPayload_state hread _ (i := { i with stream }) hcount

end State

/-! ## Reading a frame -/

/-- What a stage has taken from the octets in front of a frame: nothing, or its count. -/
def Stage.taken : Stage → Bytes
  | .size => []
  | .payload count => .ofNatLE 4 count

/-- A stage that can be reached when frames are read that have at most `limit` octets. -/
def Stage.Valid (limit : Nat) : Stage → Prop
  | .size => True
  | .payload count => count ≤ limit ∧ count < Ty.countLimit

theorem Stage.valid_size (limit : Nat) : Stage.size.Valid limit := trivial

variable {σ : Type} [ByteStream σ] {ending : Fault} {limit : Nat} {stage : Stage}
  {i i' : Input σ} {bytes : Bytes}

/-- What the result of reading a payload says about the octets. -/
theorem readPayload_done (d : Delivery σ ending) (hholds : d.Holds i.stream bytes) {count : Nat}
    (hcount : count ≤ limit) (hlimit : count < Ty.countLimit) {result : Except Fault Bytes}
    (h : readPayload count i = .done i' result) :
    (∃ payload rest, result = .ok payload ∧ Fits limit payload ∧ payload.length = count ∧
      bytes = payload ++ rest ∧ d.Holds i'.stream rest ∧
      (d.Arrived i.stream → d.Arrived i'.stream)) ∨
    bytes.length < count ∧ result = .error ending := by
  rw [readPayload] at h
  cases hread : ByteStream.read count i.stream with
  | waiting => simp [hread] at h
  | done stream got fault =>
      simp only [hread, Progress.done.injEq] at h
      obtain ⟨rfl, rfl⟩ := h
      obtain ⟨hle, rfl, rfl, hrest, harrived⟩ | ⟨hlt, rfl⟩ := d.read_done hholds hread
      · have hlen : (bytes.take count).length = count := List.length_take_of_le hle
        refine .inl ⟨bytes.take count, bytes.drop count, ?_, ⟨?_, ?_⟩, hlen, ?_, hrest, harrived⟩
        · rw [Option.elim_none, fill_eq hlen]
        · rw [hlen]
          exact hcount
        · rw [hlen]
          exact hlimit
        · exact (List.take_append_drop count bytes).symm
      · exact .inr ⟨hlt, rfl⟩

/-- A payload that has to be waited for has not arrived, and nothing of it has been taken. -/
theorem readPayload_waiting (d : Delivery σ ending) (hholds : d.Holds i.stream bytes) {count : Nat}
    {reached : Stage} (h : readPayload count i = .waiting reached i') :
    ¬ d.Arrived i.stream ∧ reached = .payload count ∧ i' = i := by
  rw [readPayload] at h
  cases hread : ByteStream.read count i.stream with
  | waiting =>
      simp only [hread, Progress.waiting.injEq] at h
      exact ⟨fun harrived => d.read_arrived count hholds harrived hread, h.1.symm, h.2.symm⟩
  | done stream got fault => simp [hread] at h

/-- A read that is done has got a frame, or there is none. -/
theorem resume_done (d : Delivery σ ending) (hholds : d.Holds i.stream bytes)
    (hstage : stage.Valid limit) {result : Except Fault Bytes}
    (h : resume limit stage i = .done i' result) :
    (∃ payload rest, result = .ok payload ∧ Fits limit payload ∧
      stage.taken ++ bytes = encode payload ++ rest ∧ d.Holds i'.stream rest ∧
      (d.Arrived i.stream → d.Arrived i'.stream)) ∨
    ∃ fault, result = .error fault ∧ Broken limit ending (stage.taken ++ bytes) fault := by
  cases stage with
  | payload count =>
      obtain ⟨payload, rest, hok, hfits, hlen, rfl, hrest⟩ | ⟨hlt, herror⟩ :=
        readPayload_done d hholds hstage.1 hstage.2 h
      · refine .inl ⟨payload, rest, hok, hfits, ?_, hrest⟩
        rw [Stage.taken, encode, hlen, List.append_assoc]
      · exact .inr ⟨ending, herror, .payload hstage.1 hstage.2 hlt⟩
  | size =>
      rw [Stage.taken, List.nil_append]
      cases hread : ByteStream.read 4 i.stream with
      | waiting => simp [resume, hread] at h
      | done stream got fault =>
          obtain ⟨hle, rfl, rfl, hrest, harrived⟩ | ⟨hlt, rfl⟩ := d.read_done hholds hread
          · obtain ⟨hbytes, hcount⟩ := count_append_drop hle
            simp only [resume, hread] at h
            by_cases hlarge : limit < Bytes.toNatLE (bytes.take 4)
            · rw [if_pos hlarge] at h
              obtain ⟨-, rfl⟩ := Progress.done.inj h
              refine .inr ⟨.objectTooLarge, rfl, ?_⟩
              rw [← hbytes]
              exact .tooLarge _ hlarge hcount
            · rw [if_neg hlarge] at h
              have hsmall := Nat.not_lt.mp hlarge
              obtain ⟨payload, rest, hok, hfits, hlen, hdrop, hafter, hstill⟩ | ⟨hlt, herror⟩ :=
                readPayload_done d hrest hsmall hcount h
              · refine .inl ⟨payload, rest, hok, hfits, ?_, hafter, hstill ∘ harrived⟩
                rw [encode, hlen, List.append_assoc, ← hdrop, hbytes]
              · refine .inr ⟨ending, herror, ?_⟩
                rw [← hbytes]
                exact .payload hsmall hcount hlt
          · simp only [resume, hread, Progress.done.injEq] at h
            exact .inr ⟨ending, h.2.symm, .count hlt⟩

/-- A read that is done has got the frame that was in front. -/
theorem resume_done_encode (d : Delivery σ ending) (hholds : d.Holds i.stream bytes)
    (hstage : stage.Valid limit) {payload rest : Bytes} (hfits : Fits limit payload)
    (hfront : stage.taken ++ bytes = encode payload ++ rest) {result : Except Fault Bytes}
    (h : resume limit stage i = .done i' result) :
    result = .ok payload ∧ d.Holds i'.stream rest ∧
      (d.Arrived i.stream → d.Arrived i'.stream) := by
  obtain ⟨payload', rest', rfl, hfits', hall, hrest⟩ | ⟨fault, rfl, hbroken⟩ :=
    resume_done d hholds hstage h
  · obtain ⟨rfl, rfl⟩ := encode_append_inj hfits hfits' (hfront.symm.trans hall)
    exact ⟨rfl, hrest⟩
  · exact absurd hfront (hbroken.ne_encode hfits rest)

/-- A read that has to wait has reached a stage whose octets it has taken. -/
theorem resume_waiting (d : Delivery σ ending) (hholds : d.Holds i.stream bytes)
    (hstage : stage.Valid limit) {reached : Stage}
    (h : resume limit stage i = .waiting reached i') :
    ¬ d.Arrived i.stream ∧ reached.Valid limit ∧
      ∃ rest, stage.taken ++ bytes = reached.taken ++ rest ∧ d.Holds i'.stream rest := by
  cases stage with
  | payload count =>
      obtain ⟨hnot, rfl, rfl⟩ := readPayload_waiting d hholds h
      exact ⟨hnot, hstage, bytes, rfl, hholds⟩
  | size =>
      cases hread : ByteStream.read 4 i.stream with
      | waiting =>
          simp only [resume, hread, Progress.waiting.injEq] at h
          obtain ⟨rfl, rfl⟩ := h
          exact ⟨fun harrived => d.read_arrived 4 hholds harrived hread, trivial, bytes, rfl, hholds⟩
      | done stream got fault =>
          obtain ⟨hle, rfl, rfl, hrest, harrived⟩ | ⟨hlt, rfl⟩ := d.read_done hholds hread
          · obtain ⟨hbytes, hcount⟩ := count_append_drop hle
            simp only [resume, hread] at h
            split at h
            case isTrue => contradiction
            case isFalse hlarge =>
              obtain ⟨hnot, rfl, rfl⟩ := readPayload_waiting d hrest h
              refine ⟨hnot ∘ harrived, ⟨Nat.not_lt.mp hlarge, hcount⟩, bytes.drop 4, ?_, hrest⟩
              rw [Stage.taken, Stage.taken, hbytes, List.nil_append]
          · simp [resume, hread] at h

/-! ## Reading what has arrived -/

/-- Octets in which there is no frame are reported in one way. -/
theorem Broken.unique {fault fault' : Fault} (h : Broken limit ending bytes fault)
    (h' : Broken limit ending bytes fault') : fault = fault' := by
  cases h with
  | count hlen =>
      cases h' with
      | count => rfl
      | tooLarge =>
          rw [List.length_append, Bytes.length_ofNatLE] at hlen
          omega
      | payload => rfl
  | tooLarge rest hlarge hn =>
      generalize hall : Bytes.ofNatLE 4 _ ++ rest = bytes at h'
      cases h' with
      | count hlen =>
          rw [← hall, List.length_append, Bytes.length_ofNatLE] at hlen
          omega
      | tooLarge => rfl
      | payload hle hn' =>
          obtain ⟨rfl, -⟩ := ofNatLE_append_inj hn hn' hall
          omega
  | @payload n rest hle hn hlen =>
      generalize hall : Bytes.ofNatLE 4 _ ++ rest = bytes at h'
      cases h' with
      | count => rfl
      | tooLarge rest' hlarge hn' =>
          obtain ⟨rfl, -⟩ := ofNatLE_append_inj hn hn' hall
          omega
      | payload => rfl

variable (d : Delivery σ ending) (harrived : d.Arrived i.stream)

include harrived

/-- A frame that has arrived is read. -/
theorem resume_encode {payload rest : Bytes} (hfits : Fits limit payload)
    (hholds : d.Holds i.stream (encode payload ++ rest)) :
    ∃ i', resume limit .size i = .done i' (.ok payload) ∧ d.Holds i'.stream rest ∧
      d.Arrived i'.stream := by
  cases hread : resume limit .size i with
  | waiting reached i' => exact absurd harrived (resume_waiting d hholds (Stage.valid_size limit) hread).1
  | done i' result =>
      obtain ⟨rfl, hrest, hstill⟩ :=
        resume_done_encode d hholds (Stage.valid_size limit) hfits rfl hread
      exact ⟨i', rfl, hrest, hstill harrived⟩

/-- Octets that have arrived and hold no frame are reported. -/
theorem resume_broken {fault : Fault} (hbroken : Broken limit ending bytes fault)
    (hholds : d.Holds i.stream bytes) :
    ∃ i', resume limit .size i = .done i' (.error fault) := by
  cases hread : resume limit .size i with
  | waiting reached i' => exact absurd harrived (resume_waiting d hholds (Stage.valid_size limit) hread).1
  | done i' result =>
      obtain ⟨payload, rest, rfl, hfits, hall, -⟩ | ⟨fault', rfl, hbroken'⟩ :=
        resume_done d hholds (Stage.valid_size limit) hread
      · exact absurd hall (hbroken.ne_encode hfits rest)
      · obtain rfl := hbroken.unique hbroken'
        exact ⟨i', rfl⟩

end Frame

end RemoteCalls
