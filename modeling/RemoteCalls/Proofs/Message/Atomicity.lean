import RemoteCalls.Proofs.Message.RoundTrip
import RemoteCalls.Proofs.Transport.Uptake

/-!
# RemoteCalls.Proofs.Message.Atomicity

What a connection gets of messages some of which cannot be written.

`Codec.Wrote` lists the ways a write can go: it reaches the connection in one
piece, or not at all.  A connection that takes such a piece whole or not at all
therefore never holds a part of a message, whatever has failed before.

Main statement: `writes_atomic_and_exact`.
-/

namespace RemoteCalls

/-- These octets are what a body writer leaves that accepts; there are none without a writer. -/
inductive BodyWriter.Leaves : Option BodyWriter → Bytes → Prop where
  | empty : Leaves none []
  | accepted {write : BodyWriter} (h : (write .empty).2 = .accepted) :
      Leaves (some write) (write .empty).1.written

theorem BodyWriter.Leaves.bodyPayload {body : Option BodyWriter} {payload : Bytes}
    (h : Leaves body payload) : Codec.bodyPayload body = (payload, [], none) := by
  cases h with
  | empty => rfl
  | accepted haccepted => simp only [Codec.bodyPayload, haccepted]; rfl

namespace Codec

variable {σ : Type} [ByteStream σ] {c : Codec σ}

/-- What writing a message can come to: the codec after it, and what is reported. -/
inductive Wrote (c : Codec σ) (h : Header) : Option BodyWriter → Codec σ → Option Fault → Prop where
  /-- A field of the header is too long for its count. -/
  | unencodable (body : Option BodyWriter) (hunfit : ¬ h.Fits) :
      Wrote c h body c (some .objectTooLarge)
  | refused {write : BodyWriter} {f : Fault} (hfits : h.Fits)
      (hbody : (write .empty).2 = .refused f) : Wrote c h (some write) c (some f)
  | raised {write : BodyWriter} {what : Option Bytes} (hfits : h.Fits)
      (hbody : (write .empty).2 = .raised what) :
      Wrote c h (some write) c (some .exceptionOccurred)
  | large {body : Option BodyWriter} {payload : Bytes} (hfits : h.Fits)
      (hbody : BodyWriter.Leaves body payload)
      (hlarge : c.limit < h.encode.length ∨ c.limit < payload.length) :
      Wrote c h body c (some .objectTooLarge)
  /-- The connection gets one write, and what it reports is reported. -/
  | handed {body : Option BodyWriter} {payload : Bytes} {stream : σ} {fault : Option Fault}
      (hfits : h.Fits) (hbody : BodyWriter.Leaves body payload)
      (hheader : h.encode.length ≤ c.limit) (hpayload : payload.length ≤ c.limit)
      (hwrite : ByteStream.write (Frame.encode h.encode ++ Frame.encode payload) c.stream =
        (stream, fault)) :
      Wrote c h body { c with stream } fault

/-- A body is written, or refused, or its writer throws. -/
theorem bodyPayload_cases (body : Option BodyWriter) :
    (∃ payload, BodyWriter.Leaves body payload) ∨
    (∃ write f payload, body = some write ∧ (write .empty).2 = .refused f ∧
      bodyPayload body = (payload, [], some f)) ∨
    ∃ write what payload entries, body = some write ∧ (write .empty).2 = .raised what ∧
      bodyPayload body = (payload, entries, some .exceptionOccurred) := by
  cases body with
  | none => exact .inl ⟨[], .empty⟩
  | some write =>
      cases hverdict : (write .empty).2 with
      | accepted => exact .inl ⟨_, .accepted hverdict⟩
      | refused f =>
          refine .inr (.inl ⟨write, f, (write .empty).1.written, rfl, hverdict, ?_⟩)
          simp only [bodyPayload, hverdict]
          rfl
      | raised what =>
          refine .inr (.inr ⟨write, what, (write .empty).1.written, (Verdict.raised what).log, rfl,
            hverdict, ?_⟩)
          simp only [bodyPayload, hverdict]
          rfl

/-- A write goes one of these ways. -/
theorem write_wrote (c : Codec σ) (h : Header) (body : Option BodyWriter) :
    Wrote c h body (c.write h body).1 (c.write h body).2.2 := by
  by_cases hfits : h.Fits
  · have hheader : h.write .empty = (.holding h.encode, none) := Header.write_empty hfits
    obtain ⟨payload, hbody⟩ | ⟨write, f, payload, rfl, hrefused, hfault⟩ |
      ⟨write, what, payload, entries, rfl, hraised, hfault⟩ := bodyPayload_cases body
    · by_cases hlarge : c.limit < h.encode.length ∨ c.limit < payload.length
      · have hwrite : c.write h body = (c, [], some .objectTooLarge) := by
          simp only [Codec.write, encodeMessage, hheader, hbody.bodyPayload, Sink.written_holding,
            if_pos hlarge]
        rw [hwrite]
        exact .large hfits hbody hlarge
      · have hwrite : c.write h body =
            ({ c with stream := (ByteStream.write
                (Frame.encode h.encode ++ Frame.encode payload) c.stream).1 }, [],
              (ByteStream.write (Frame.encode h.encode ++ Frame.encode payload) c.stream).2) := by
          simp only [Codec.write, encodeMessage, hheader, hbody.bodyPayload, Sink.written_holding,
            if_neg hlarge]
        rw [hwrite]
        rw [not_or, Nat.not_lt, Nat.not_lt] at hlarge
        exact .handed hfits hbody hlarge.1 hlarge.2 rfl
    · have hwrite : c.write h (some write) = (c, [], some f) := by
        simp only [Codec.write, encodeMessage, hheader, hfault]
      rw [hwrite]
      exact .refused hfits hrefused
    · have hwrite : c.write h (some write) = (c, entries, some .exceptionOccurred) := by
        simp only [Codec.write, encodeMessage, hheader, hfault]
      rw [hwrite]
      exact .raised hfits hraised
  · rcases hheader : h.write .empty with ⟨s, fault⟩
    have hlarge := Header.write_of_not_fits hfits
    rw [hheader] at hlarge
    obtain rfl : fault = some .objectTooLarge := hlarge
    have hwrite : c.write h body = (c, [], some .objectTooLarge) := by
      simp only [Codec.write, encodeMessage, hheader]
    rw [hwrite]
    exact .unencodable body hfits

/-- A write that succeeds hands over the header and what the body writer leaves. -/
theorem Wrote.eq_none {h : Header} {body : Option BodyWriter} {codec : Codec σ}
    (hwrote : Wrote c h body codec none) :
    ∃ stream, codec = { c with stream } ∧
      ByteStream.write (Message.mk h (bodyPayload body).1).encode c.stream = (stream, none) := by
  cases hwrote with
  | @handed body payload stream fault hfits hbody hheader hpayload hwrite =>
      rw [hbody.bodyPayload]
      exact ⟨stream, rfl, hwrite⟩

/-- A write that fails has not reached the connection, or was refused there. -/
theorem Wrote.eq_some {h : Header} {body : Option BodyWriter} {codec : Codec σ} {f : Fault}
    (hwrote : Wrote c h body codec (some f)) :
    codec = c ∨ ∃ stream bytes, codec = { c with stream } ∧
      ByteStream.write bytes c.stream = (stream, some f) := by
  cases hwrote with
  | unencodable | refused | raised | large => exact .inl rfl
  | handed _ _ _ _ hwrite => exact .inr ⟨_, _, rfl, hwrite⟩

/-- Where writes are taken whole or not at all, messages are. -/
theorem taken_writeAll (a : Admission σ) (hwhole : a.Whole c.stream) (ws : List Writing) :
    a.taken (c.writeAll ws).1.stream =
        a.taken c.stream ++ (c.writeAll ws).2.flatMap Message.encode ∧
      a.Whole (c.writeAll ws).1.stream := by
  induction ws generalizing c with
  | nil => exact ⟨by simp [writeAll], hwhole⟩
  | cons w ws ih =>
      have hwrote := write_wrote c w.1 w.2
      rcases hwrite : c.write w.1 w.2 with ⟨codec, entries, fault⟩
      rw [hwrite] at hwrote
      cases fault with
      | none =>
          obtain ⟨stream, rfl, hstream⟩ := hwrote.eq_none
          obtain ⟨htaken, hstill⟩ := a.write_ok hwhole hstream
          obtain ⟨hlater, hend⟩ := @ih { c with stream } hstill
          simp only [writeAll, hwrite, if_true, List.flatMap_cons]
          exact ⟨by rw [hlater, htaken, List.append_assoc], hend⟩
      | some f =>
          have hkept : a.taken codec.stream = a.taken c.stream ∧ a.Whole codec.stream := by
            obtain rfl | ⟨stream, bytes, rfl, hstream⟩ := hwrote.eq_some
            · exact ⟨rfl, hwhole⟩
            · exact a.write_fault hwhole hstream
          obtain ⟨hlater, hend⟩ := ih hkept.2
          simp only [writeAll, hwrite, reduceCtorEq, if_false]
          exact ⟨by rw [hlater, hkept.1], hend⟩

/-! ## Writes that do not reach the connection -/

theorem writeAll_append (ws later : List Writing) :
    c.writeAll (ws ++ later) = (((c.writeAll ws).1.writeAll later).1,
      (c.writeAll ws).2 ++ ((c.writeAll ws).1.writeAll later).2) := by
  induction ws generalizing c with
  | nil => rfl
  | cons w ws ih =>
      simp only [List.cons_append, writeAll, ih]
      split <;> rfl

theorem limit_writeAll (ws : List Writing) : (c.writeAll ws).1.limit = c.limit := by
  induction ws generalizing c with
  | nil => rfl
  | cons w ws ih =>
      rcases hwrite : c.write w.1 w.2 with ⟨codec, entries, fault⟩
      simp only [writeAll, hwrite, ih]
      exact (write_stream hwrite).1

/-- A message that cannot be written changes nothing. -/
theorem write_of_ofWriting_eq_none {w : Writing} (h : Message.ofWriting c.limit w = none) :
    ∃ entries f, c.write w.1 w.2 = (c, entries, some f) := by
  obtain ⟨header, body⟩ := w
  have hwrote := write_wrote c header body
  rcases hwrite : c.write header body with ⟨codec, entries, fault⟩
  rw [hwrite] at hwrote
  cases hwrote with
  | unencodable => exact ⟨_, _, rfl⟩
  | refused => exact ⟨_, _, rfl⟩
  | raised => exact ⟨_, _, rfl⟩
  | large => exact ⟨_, _, rfl⟩
  | handed hfits hbody hheader hpayload _ =>
      rw [Message.ofWriting, hbody.bodyPayload] at h
      simp [hheader, hpayload] at h

/-- A message that can be written is handed over in one write. -/
theorem write_of_ofWriting (hlimit : c.limit < Ty.countLimit) {w : Writing} {m : Message}
    (h : Message.ofWriting c.limit w = some m) :
    ∃ entries, c.write w.1 w.2 =
      ({ c with stream := (ByteStream.write m.encode c.stream).1 }, entries,
        (ByteStream.write m.encode c.stream).2) := by
  obtain ⟨entries, hencode⟩ := Message.encodeMessage_of_ofWriting hlimit h
  exact ⟨entries, by simp only [write, hencode]⟩

/-- Leaving out a message that cannot be written makes no difference. -/
theorem writeAll_of_ofWriting_eq_none {before after : List Writing} {w : Writing}
    (h : Message.ofWriting c.limit w = none) :
    c.writeAll (before ++ w :: after) = c.writeAll (before ++ after) := by
  rw [← limit_writeAll before] at h
  obtain ⟨entries, f, hwrite⟩ := write_of_ofWriting_eq_none h
  rw [writeAll_append, writeAll_append]
  simp only [writeAll, hwrite, reduceCtorEq, if_false]

end Codec

/-! ## Main statement -/

/-- Messages written one after another: each write reaches the connection once, with the octets of
its message, or not at all, and reports what went wrong; those that do not reach it might as well
not have been tried; and a connection that takes writes whole has taken just the messages whose
writes succeeded. -/
theorem writes_atomic_and_exact {σ : Type} [ByteStream σ] (c : Codec σ) (ws : List Writing) :
    (∀ before w after, ws = before ++ w :: after →
      ∃ codec entries fault, (c.writeAll before).1.write w.1 w.2 = (codec, entries, fault) ∧
        Codec.Wrote (c.writeAll before).1 w.1 w.2 codec fault ∧
        (c.writeAll before).1.limit = c.limit) ∧
    (∀ before w after, ws = before ++ w :: after → Message.ofWriting c.limit w = none →
      c.writeAll ws = c.writeAll (before ++ after)) ∧
    ∀ a : Admission σ, a.Whole c.stream →
      a.taken (c.writeAll ws).1.stream =
        a.taken c.stream ++ (c.writeAll ws).2.flatMap Message.encode := by
  refine ⟨?_, ?_, ?_⟩
  · rintro before w after -
    exact ⟨_, _, _, rfl, Codec.write_wrote _ w.1 w.2, Codec.limit_writeAll before⟩
  · rintro before w after rfl hnone
    exact Codec.writeAll_of_ofWriting_eq_none hnone
  · intro a hwhole
    exact (Codec.taken_writeAll a hwhole ws).1

/-- A message, a body writer that throws after two octets, a header and a body that are too large, a
message that the connection refuses, and another. -/
theorem writes_atomic_and_exact_six_writes :
    let first : Writing := ({ seq := 1 }, some (.ofValue (.unsigned .w16) (7 : BitVec 16)))
    let throws : Writing := ({ seq := 2 }, some fun s => ((s.put [1, 2]).1, .raised none))
    let last : Writing := ({ seq := 6 }, none)
    let ws : List Writing :=
      [first, throws, ({ service := List.replicate 30 1 }, none),
        ({ seq := 4 }, some fun s => ((s.put (List.replicate 33 0)).1, .accepted)),
        ({ seq := 5 }, none), last]
    let c : Codec Faltering :=
      { stream := { script := [none, some (0, .system 32)] }, limit := 32 }
    (c.writeAll ws).1.stream.outgoing =
        Message.encode ⟨first.1, [7, 0]⟩ ++ Message.encode ⟨last.1, []⟩ ∧
      c.writeAll ws = c.writeAll (first :: ws.drop 2) := by
  intro first throws last ws c
  have hsent : (c.writeAll ws).2 = [⟨first.1, [7, 0]⟩, ⟨last.1, []⟩] := by decide +kernel
  have hwhole : Faltering.admission.Whole c.stream := by
    intro most f hmem
    simp only [c, List.mem_cons, reduceCtorEq, Option.some.injEq, Prod.mk.injEq, List.not_mem_nil,
      or_false, false_or] at hmem
    exact hmem.1
  obtain ⟨-, hleft, htaken⟩ := writes_atomic_and_exact c ws
  have hall := htaken Faltering.admission hwhole
  simp only [hsent, Faltering.taken_admission, List.flatMap_cons, List.flatMap_nil, List.append_nil]
    at hall
  have hnone : Message.ofWriting c.limit throws = none := by decide +kernel
  exact ⟨hall, hleft [first] throws (ws.drop 2) rfl hnone⟩

end RemoteCalls
