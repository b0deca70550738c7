import CppRequest.WireResponse

/-!
# Responses of which a part has arrived

What one call answers to the first bytes of a response that keeps the limits. It asks
for more, with one exception: a size line of exactly `max_chunk_line_bytes` bytes of
which the CR has arrived and the LF has not. The CR is then counted against the limit,
and the response is refused.
-/

namespace CppRequest

open Search

/-! ## Cutting lines -/

theorem prefix_append_cases {P a b : Bytes} (h : P <+: a ++ b) :
    (P <+: a ∧ P.length < a.length) ∨ ∃ Q, P = a ++ Q ∧ Q <+: b := by
  by_cases hlt : P.length < a.length
  · exact .inl ⟨List.prefix_of_prefix_length_le h (List.prefix_append a b) hlt.le, hlt⟩
  · right
    rcases List.prefix_of_prefix_length_le (List.prefix_append a b) h (not_lt.mp hlt) with ⟨Q, rfl⟩
    exact ⟨Q, rfl, (List.prefix_append_right_inj a).mp h⟩

/-- A CR at the end is not the beginning of a line end. -/
theorem no_crlf_concat {line : Bytes} (h : ¬ crlf <:+: line) : ¬ crlf <:+: line ++ [cr] := by
  rintro ⟨a, b, hab⟩
  rcases List.eq_nil_or_concat b with rfl | ⟨b, x, rfl⟩
  · have hlast := congrArg List.getLast? hab
    simp [crlf, cr, lf] at hlast
  · refine h ⟨a, b, ?_⟩
    have hinit := congrArg List.dropLast hab
    rwa [List.concat_eq_append, ← List.append_assoc, List.dropLast_concat,
      List.dropLast_concat] at hinit

/-- The first bytes of a line and what follows it. -/
theorem line_prefix_cases {P line rest : Bytes} (hno : ¬ crlf <:+: line)
    (h : P <+: line ++ (crlf ++ rest)) :
    (P <+: line ++ [cr] ∧ ¬ crlf <:+: P) ∨ ∃ Q, P = line ++ (crlf ++ Q) ∧ Q <+: rest := by
  have hsplit : line ++ (crlf ++ rest) = (line ++ [cr]) ++ ([lf] ++ rest) := by simp [crlf]
  have hshort : P <+: line ++ [cr] → ¬ crlf <:+: P := fun hp hin =>
    no_crlf_concat hno (hin.trans hp.isInfix)
  rw [hsplit] at h
  rcases prefix_append_cases h with ⟨hp, -⟩ | ⟨Q, rfl, hQ⟩
  · exact .inl ⟨hp, hshort hp⟩
  · rcases prefix_append_cases hQ with ⟨hp, hlt⟩ | ⟨Q', rfl, hQ'⟩
    · have hnil : Q = [] := List.length_eq_zero_iff.mp (Nat.lt_one_iff.mp hlt)
      subst hnil
      have hall : line ++ [cr] ++ [] <+: line ++ [cr] := by rw [List.append_nil]
      exact .inl ⟨hall, hshort hall⟩
    · exact .inr ⟨Q', by simp [crlf], hQ'⟩

/-! ## Chunked bodies -/

theorem Chunk.length_encode (c : Chunk) :
    c.encode.length = c.size.line.length + 2 + c.data.length + 2 := by
  simp only [encode, crlf, List.length_append, List.length_cons, List.length_nil]
  omega

namespace ChunkedMessage

/-- The bytes end behind the CR of a size line that is as long as the limit allows. -/
def CutInLine (m : ChunkedMessage) (limits : ResponseLimits) (P : Bytes) : Prop :=
  ∃ k ≤ m.chunks.length, (m.sizeLine k).length = limits.maxChunkLineBytes.toNat ∧
    P = (m.chunks.take k).flatMap Chunk.encode ++ (m.sizeLine k ++ [cr])

section

variable {limits : ResponseLimits} {last : SizeLine 0} {trailers : List TrailerLine} {P : Bytes}

theorem cutInLine_nil : (mk [] last trailers).CutInLine limits P ↔
    last.line.length = limits.maxChunkLineBytes.toNat ∧ P = last.line ++ [cr] := by
  constructor
  · rintro ⟨k, hk, hfull, rfl⟩
    have hzero : k = 0 := Nat.le_zero.mp hk
    subst hzero
    exact ⟨hfull, rfl⟩
  · rintro ⟨hfull, rfl⟩
    exact ⟨0, le_rfl, hfull, rfl⟩

theorem cutInLine_cons {c : Chunk} {chunks : List Chunk} :
    (mk (c :: chunks) last trailers).CutInLine limits P ↔
      (c.size.line.length = limits.maxChunkLineBytes.toNat ∧ P = c.size.line ++ [cr]) ∨
        ∃ Q, P = c.encode ++ Q ∧ (mk chunks last trailers).CutInLine limits Q := by
  constructor
  · rintro ⟨k, hk, hfull, rfl⟩
    cases k with
    | zero => exact .inl ⟨hfull, rfl⟩
    | succ k =>
      refine .inr ⟨_, ?_, k, Nat.le_of_succ_le_succ hk, hfull, rfl⟩
      simp only [List.take_succ_cons, List.flatMap_cons, List.append_assoc]
      rfl
  · rintro (⟨hfull, rfl⟩ | ⟨Q, rfl, k, hk, hfull, rfl⟩)
    · exact ⟨0, Nat.zero_le _, hfull, rfl⟩
    · refine ⟨k + 1, Nat.succ_le_succ hk, hfull, ?_⟩
      simp only [List.take_succ_cons, List.flatMap_cons, List.append_assoc]
      rfl

theorem CutInLine.length_lt {m : ChunkedMessage} (h : m.CutInLine limits P) :
    P.length < m.encode.length := by
  obtain ⟨chunks, last, trailers⟩ := m
  induction chunks generalizing P with
  | nil =>
    rcases cutInLine_nil.mp h with ⟨-, rfl⟩
    simp only [encode, List.flatMap_nil, List.length_append, List.length_nil, crlf,
      List.length_cons]
    omega
  | cons c chunks ih =>
    simp only [encode, List.flatMap_cons, List.append_assoc, List.length_append] at ih ⊢
    rcases cutInLine_cons.mp h with ⟨-, rfl⟩ | ⟨Q, rfl, hcut⟩
    · rw [c.length_encode, List.length_append, List.length_singleton]
      omega
    · have := ih hcut
      rw [List.length_append]
      omega

/-- Behind the CR of the first size line, and before the second, nothing is cut in a line. -/
theorem not_cutInLine {c : Chunk} {chunks : List Chunk} (hlong : c.size.line.length + 2 ≤ P.length)
    (hshort : P.length < c.encode.length) :
    ¬ (mk (c :: chunks) last trailers).CutInLine limits P := by
  rw [cutInLine_cons]
  rintro (⟨-, rfl⟩ | ⟨Q, rfl, -⟩)
  · rw [List.length_append, List.length_singleton] at hlong
    omega
  · rw [List.length_append] at hshort
    omega

theorem cutInLine_append {c : Chunk} {chunks : List Chunk} {Q : Bytes} :
    (mk (c :: chunks) last trailers).CutInLine limits (c.encode ++ Q) ↔
      (mk chunks last trailers).CutInLine limits Q := by
  rw [cutInLine_cons]
  constructor
  · rintro (⟨-, hcut⟩ | ⟨Q', hQ, hcut⟩)
    · have hlen := congrArg List.length hcut
      simp only [List.length_append, c.length_encode, List.length_singleton] at hlen
      omega
    · rwa [List.append_cancel_left hQ]
  · exact fun hcut => .inr ⟨Q, rfl, hcut⟩

end

end ChunkedMessage


namespace ChunkedDecoder

theorem sizeLine_too_long {c : Config} (hs : c.decoder.stage = .sizeLine)
    (hno : ¬ crlf <:+: c.input)
    (hlen : c.decoder.limits.maxChunkLineBytes.toNat < c.input.length) :
    unreadLoop.run c = (.error { code := .responseLimitExceeded }, c) := by
  have hstep : unreadStep c = .inr (.error { code := .responseLimitExceeded }, c) := by
    unfold unreadStep
    simp [hs, cut_eq_none_iff.mpr hno, hlen, Config.fail]
  exact unreadLoop.run_of_exit hstep

variable {limits : ResponseLimits}

/-- A size line of which the line end has not arrived. -/
theorem sizeLine_begun {size : ℕ} (l : SizeLine size) (output : Bytes) {P : Bytes}
    (hline : l.line.length ≤ limits.maxChunkLineBytes.toNat) (hP : P <+: l.line ++ [cr])
    (hno : ¬ crlf <:+: P) :
    (unreadLoop.run (atSizeLine limits P output) = (.ok .needMore, atSizeLine limits P output) ∧
        ¬ (l.line.length = limits.maxChunkLineBytes.toNat ∧ P = l.line ++ [cr])) ∨
      l.line.length = limits.maxChunkLineBytes.toNat ∧ P = l.line ++ [cr] ∧
        unreadLoop.run (atSizeLine limits P output) =
          (.error { code := .responseLimitExceeded }, atSizeLine limits P output) := by
  have hlen := hP.length_le
  rw [List.length_append, List.length_singleton] at hlen
  by_cases hfits : P.length ≤ limits.maxChunkLineBytes.toNat
  · refine .inl ⟨(Rest.sizeLine (d := { limits }) rfl hno hfits).run, ?_⟩
    rintro ⟨hfull, rfl⟩
    rw [List.length_append, List.length_singleton] at hfits
    omega
  · refine .inr ⟨by omega, hP.eq_of_length ?_, sizeLine_too_long rfl hno (not_le.mp hfits)⟩
    rw [List.length_append, List.length_singleton]
    omega

theorem trailers_begun {seen : ℕ} (trailers : List TrailerLine) {P : Bytes} (output : Bytes)
    (hseen : seen + (ChunkedMessage.trailerSection trailers).length ≤
      limits.maxTrailerBytes.toNat)
    (hP : P <+: ChunkedMessage.trailerSection trailers)
    (hne : P ≠ ChunkedMessage.trailerSection trailers) :
    ∃ c, unreadLoop.run (atTrailers limits seen P output) = (.ok .needMore, c) ∧
      c.output = output := by
  have hrest : ∀ {seen : ℕ} {P : Bytes}, ¬ crlf <:+: P →
      seen + P.length ≤ limits.maxTrailerBytes.toNat →
      ∃ c, unreadLoop.run (atTrailers limits seen P output) = (.ok .needMore, c) ∧
        c.output = output := fun hno hlen => ⟨_, (Rest.trailers rfl hno hlen).run, rfl⟩
  unfold ChunkedMessage.trailerSection at hseen hP hne
  induction trailers generalizing seen P with
  | nil =>
    have hlt : P.length < crlf.length := lt_of_le_of_ne hP.length_le fun h => hne (hP.eq_of_length h)
    refine hrest (fun hin => ?_) ?_
    · exact absurd hin.length_le (not_le.mpr hlt)
    · have := hP.length_le
      omega
  | cons t trailers ih =>
    rw [List.flatMap_cons, TrailerLine.encode, List.append_assoc, List.append_assoc] at hP hne
    simp only [List.flatMap_cons, List.append_assoc, List.length_append] at hseen ih
    have ht : t.encode.length = t.line.length + 2 := by
      rw [TrailerLine.encode, List.length_append]
      rfl
    rcases line_prefix_cases t.noCrlf hP with ⟨hshort, hno⟩ | ⟨Q, rfl, hQ⟩
    · have hlen := hshort.length_le
      rw [List.length_append, List.length_singleton] at hlen
      exact hrest hno (by omega)
    · have hround := @trailer_round limits seen t Q output (by omega)
      rw [TrailerLine.encode, List.append_assoc] at hround
      rw [hround.run]
      refine ih ?_ hQ fun heq => hne (by rw [heq])
      rw [← TrailerLine.encode]
      omega

/-- The first bytes of a chunked message. -/
theorem message_begun (m : ChunkedMessage) {P : Bytes} (output : Bytes)
    (hlines : ∀ k, (m.sizeLine k).length ≤ limits.maxChunkLineBytes.toNat)
    (hbody : output.length + m.data.length ≤ limits.maxBodyBytes.toNat)
    (htrailers : (ChunkedMessage.trailerSection m.trailers).length ≤
      limits.maxTrailerBytes.toNat)
    (hP : P <+: m.encode) (hne : P ≠ m.encode) :
    (¬ m.CutInLine limits P ∧ ∃ c, unreadLoop.run (atSizeLine limits P output) =
        (.ok .needMore, c) ∧ c.output <+: output ++ m.data) ∨
      m.CutInLine limits P ∧ ∃ c, unreadLoop.run (atSizeLine limits P output) =
        (.error { code := .responseLimitExceeded }, c) := by
  obtain ⟨chunks, last, trailers⟩ := m
  induction chunks generalizing output P with
  | nil =>
    rw [ChunkedMessage.cutInLine_nil]
    rcases line_prefix_cases last.noCrlf hP with ⟨hshort, hno⟩ | ⟨Q, rfl, hQ⟩
    · rcases sizeLine_begun last output (hlines 0) hshort hno with
        ⟨hrun, hfull⟩ | ⟨hfull, hcut, hrun⟩
      · exact .inl ⟨hfull, _, hrun, List.prefix_append _ _⟩
      · exact .inr ⟨⟨hfull, hcut⟩, _, hrun⟩
    · rcases trailers_begun trailers output ((Nat.zero_add _).trans_le htrailers) hQ
          fun heq => hne (by rw [heq]; rfl) with ⟨c, hrun, hout⟩
      refine .inl ⟨?_, c, (last_round last Q output (hlines 0)).run.trans hrun, ?_⟩
      · rintro ⟨-, hcut⟩
        have hlen := congrArg List.length hcut
        simp [crlf] at hlen
      · rw [hout]
        exact List.prefix_append _ _
  | cons c chunks ih =>
    have hline : c.size.line.length ≤ limits.maxChunkLineBytes.toNat := hlines 0
    simp only [ChunkedMessage.encode, Chunk.encode, List.flatMap_cons, List.append_assoc] at hP hne
    simp only [ChunkedMessage.data, List.flatMap_cons, List.length_append] at hbody
    have hlen := c.length_encode
    rcases line_prefix_cases c.size.noCrlf hP with ⟨hshort, hno⟩ | ⟨Q, rfl, hQ⟩
    · rcases sizeLine_begun c.size output hline hshort hno with
        ⟨hrun, hfull⟩ | ⟨hfull, hcut, hrun⟩
      · refine .inl ⟨?_, _, hrun, List.prefix_append _ _⟩
        rw [ChunkedMessage.cutInLine_cons]
        rintro (hcut | ⟨Q, rfl, -⟩)
        · exact hfull hcut
        · have hle := hshort.length_le
          simp only [List.length_append, List.length_singleton] at hle
          omega
      · exact .inr ⟨ChunkedMessage.cutInLine_cons.mpr (.inl ⟨hfull, hcut⟩), _, hrun⟩
    · have hsize := (size_round c.size c.length_ne_zero Q output hline (by omega)).run
      have hbehind : c.size.line.length + 2 ≤ (c.size.line ++ (crlf ++ Q)).length := by
        simp only [List.length_append, crlf, List.length_cons, List.length_nil]
        omega
      rcases prefix_append_cases hQ with ⟨hdata, hlt⟩ | ⟨R, rfl, hR⟩
      · have hpart := (@Rest.data { limits, stage := .data, chunkRemaining := c.data.length } _
          output rfl hlt).run
        refine .inl ⟨ChunkedMessage.not_cutInLine hbehind ?_, _, hsize.trans hpart, ?_⟩
        · simp only [List.length_append, crlf, List.length_cons, List.length_nil]
          omega
        · rw [List.prefix_append_right_inj, ChunkedMessage.data, List.flatMap_cons]
          exact hdata.trans (List.prefix_append _ _)
      · have hread := hsize.trans (data_round c.data R output).run
        rcases prefix_append_cases hR with ⟨-, hlt⟩ | ⟨S, rfl, hS⟩
        · have hlt' : R.length < 2 := hlt
          have hpart := (@Rest.dataCrlf { limits, stage := .dataCrlf } _
            (output ++ c.data) rfl hlt').run
          refine .inl ⟨ChunkedMessage.not_cutInLine hbehind ?_, _, hread.trans hpart, ?_⟩
          · simp only [List.length_append, crlf, List.length_cons, List.length_nil]
            omega
          · rw [ChunkedMessage.data, List.flatMap_cons, ← List.append_assoc]
            exact List.prefix_append _ _
        · have hencode : c.size.line ++ (crlf ++ (c.data ++ (crlf ++ S))) = c.encode ++ S := by
            simp only [Chunk.encode, List.append_assoc]
          have hnext := hread.trans (crlf_round S (output ++ c.data)).run
          have hcut : (ChunkedMessage.mk (c :: chunks) last trailers).CutInLine limits
              (c.encode ++ S) ↔ (ChunkedMessage.mk chunks last trailers).CutInLine limits S :=
            ChunkedMessage.cutInLine_append
          rw [hencode] at hne hnext ⊢
          rw [hcut, hnext, ChunkedMessage.data, List.flatMap_cons, ← List.append_assoc]
          refine ih (output ++ c.data) (fun k => hlines (k + 1)) ?_ htrailers hS ?_
          · rw [List.length_append, Nat.add_assoc]
            exact hbody
          · rintro rfl
            exact hne (by simp [ChunkedMessage.encode, Chunk.encode])

end ChunkedDecoder

/-! ## Responses -/

def MessageBody.CutInLine (limits : ResponseLimits) : MessageBody → Bytes → Prop
  | .chunked m, P => m.CutInLine limits P
  | _, _ => False

/-- The bytes end behind the CR of a size line that is as long as the limit allows. -/
def WireResponse.CutInLine {requestMethod : Method} (w : WireResponse requestMethod)
    (limits : ResponseLimits) (P : Bytes) : Prop :=
  ∃ Q, P = w.interims.flatMap HeadBlock.encode ++ (w.final.encode ++ Q) ∧
    w.body.CutInLine limits Q

theorem WireResponse.CutInLine.ne_encode {requestMethod : Method} {w : WireResponse requestMethod}
    {limits : ResponseLimits} {P : Bytes} (h : w.CutInLine limits P) : P ≠ w.encode := by
  rcases h with ⟨Q, rfl, hcut⟩
  intro heq
  have hbody : Q = w.body.encode := List.append_cancel_left (List.append_cancel_left heq)
  cases hb : w.body with
  | chunked m =>
    rw [hb] at hcut hbody
    exact (ChunkedMessage.CutInLine.length_lt hcut).ne (congrArg List.length hbody)
  | none | length | untilClose =>
    rw [hb] at hcut
    exact hcut

namespace ResponseParser

/-- The answer is to wait, and the end of input would be an error unless it ends the body. -/
def Waits (k : BodyFraming) (r : ParseExit) : Prop :=
  ∃ p, r = (.ok .needMore, p) ∧
    if k = .untilClose then
      p.finishEof.1 = .ok .complete ∨ p.finishEof = (.error { code := .unexpectedEof }, p)
    else p.finishEof = (.error { code := .unexpectedEof }, p)

theorem Waits.of_unexpected {k : BodyFraming} {r : ParseExit} {p : ResponseParser}
    (h : r = (.ok .needMore, p)) (heof : p.finishEof = (.error { code := .unexpectedEof }, p)) :
    Waits k r := by
  refine ⟨p, h, ?_⟩
  split_ifs
  · exact .inr heof
  · exact heof

def Refuses (r : ParseExit) : Prop := ∃ p, r = (.error { code := .responseLimitExceeded }, p)

variable {requestMethod : Method} {limits : ResponseLimits}

theorem head_begun (h : HeadBlock) {P : Bytes} {k : BodyFraming} (hP : P <+: h.encode)
    (hlt : P.length < h.encode.length) (hlen : h.encode.length ≤ limits.maxHeadBytes.toNat) :
    Waits k (bufferLoop.run (atHead requestMethod limits P)) := by
  have hno : ¬ crlfcrlf <:+: P := h.leads.not_infix hP hlt
  exact .of_unexpected (Rest.head (p := atHead requestMethod limits P) rfl hno (by
    show P.length ≤ limits.maxHeadBytes.toNat
    omega)).run rfl

variable (requestMethod) in
/-- The first bytes of interim heads and what follows them. -/
theorem interims_begun (interims : List HeadBlock) {P rest : Bytes} {k : BodyFraming}
    (hinterim : ∀ h ∈ interims, h.Interim)
    (hlen : ∀ h ∈ interims, h.encode.length ≤ limits.maxHeadBytes.toNat)
    (hP : P <+: interims.flatMap HeadBlock.encode ++ rest) :
    (P.length < (interims.flatMap HeadBlock.encode).length ∧
        Waits k (bufferLoop.run (atHead requestMethod limits P))) ∨
      ∃ Q, P = interims.flatMap HeadBlock.encode ++ Q ∧ Q <+: rest := by
  induction interims generalizing P with
  | nil => exact .inr ⟨P, rfl, hP⟩
  | cons h interims ih =>
    rw [List.flatMap_cons, List.append_assoc] at hP
    simp only [List.flatMap_cons, List.append_assoc, List.length_append]
    rcases prefix_append_cases hP with ⟨hhead, hlt⟩ | ⟨Q, rfl, hQ⟩
    · exact .inl ⟨by omega, head_begun h hhead hlt (hlen h List.mem_cons_self)⟩
    · have hone := interims_run requestMethod [h] Q
        (fun h' hm => hinterim h' (List.mem_singleton.mp hm ▸ List.mem_cons_self))
        (fun h' hm => hlen h' (List.mem_singleton.mp hm ▸ List.mem_cons_self))
      rw [List.flatMap_singleton] at hone
      rw [hone, List.length_append]
      rcases ih (fun h' hm => hinterim h' (List.mem_cons_of_mem _ hm))
        (fun h' hm => hlen h' (List.mem_cons_of_mem _ hm)) hQ with ⟨hlt, hwaits⟩ | ⟨R, rfl, hR⟩
      · exact .inl ⟨by omega, hwaits⟩
      · exact .inr ⟨R, rfl, hR⟩

/-- The first bytes of a body. -/
theorem body_begun (h : HeadBlock) (body : MessageBody) {P : Bytes} (hin : body.Within limits)
    (hreset : h.head.statusCode = 205 → body.data = []) (hP : P <+: body.encode)
    (hne : body.framing = .untilClose ∨ P ≠ body.encode) :
    (¬ body.CutInLine limits P ∧
        Waits body.framing (bodyRun (atBody requestMethod limits h P) body.framing)) ∨
      body.CutInLine limits P ∧
        Refuses (bodyRun (atBody requestMethod limits h P) body.framing) := by
  generalize hp : atBody requestMethod limits h P = p
  cases body with
  | none =>
    have hnil : P = [] := List.prefix_nil.mp hP
    exact absurd hnil (hne.resolve_left nofun)
  | untilClose data =>
    have hdata : P.length ≤ limits.maxBodyBytes.toNat := hP.length_le.trans hin
    have hallowed : h.head.statusCode = 205 → P = [] := by
      intro hs
      have hnil : data = [] := hreset hs
      subst hnil
      exact List.prefix_nil.mp hP
    rcases close_run requestMethod h P hdata hallowed with ⟨p', hrun, -, heof⟩
    subst hp
    have heof' : p'.finishEof.1 = .ok .complete := by rw [heof]
    exact .inl ⟨id, p', hrun, (if_pos rfl).mpr (.inl heof')⟩
  | length data =>
    have hlt : P.length < data.length :=
      lt_of_le_of_ne hP.length_le fun heq => hne.resolve_left nofun (hP.eq_of_length heq)
    have hzero : data.length ≠ 0 := by omega
    have hstatus : h.head.statusCode ≠ 205 := fun hs => by
      have hnil : data = [] := hreset hs
      exact hzero (by rw [hnil]; rfl)
    have hrest := Rest.length (p := { p.expect data.length with stage := .contentLengthBody }) rfl
      (by subst hp; exact hlt.trans_eq (if_neg hstatus).symm)
    have hwaits : Waits (.length data.length) _ := .of_unexpected hrest.run rfl
    refine .inl ⟨id, ?_⟩
    unfold bodyRun MessageBody.framing begin
    simp only [if_neg hzero, Sum.elim_inl]
    exact hwaits
  | chunked m =>
    have hbegin : bodyRun p (MessageBody.chunked m).framing =
        bufferLoop.run { p.forbid with stage := .chunkedBody } := rfl
    have hlen : ([] : Bytes).length + m.data.length ≤ limits.maxBodyBytes.toNat :=
      (Nat.zero_add _).trans_le hin.body
    rw [hbegin]
    rcases ChunkedDecoder.message_begun m [] hin.lines hlen hin.trailers hP
      (hne.resolve_left nofun) with ⟨hcut, c, hrun, hout⟩ | ⟨hcut, c, hrun⟩
    · have hrest := Rest.chunked (p := { p.forbid with stage := .chunkedBody }) (c := c) rfl
        (by subst hp; exact ChunkedDecoder.process_ok_iff.mpr hrun) (fun hforbidden => by
          subst hp
          have hdata := hreset (by simpa [forbid, atBody, ResponseParser.final, fresh] using hforbidden)
          rw [show m.data = [] from hdata] at hout
          exact List.prefix_nil.mp hout)
      exact .inl ⟨hcut, .of_unexpected hrest.run rfl⟩
    · have hprocess : ∃ c, ChunkedDecoder.process { limits } P [] =
          (.error { code := .responseLimitExceeded }, c) := by
        refine ⟨_, Prod.ext ?_ rfl⟩
        rw [ChunkedDecoder.process_eq, ChunkedDecoder.restoreInput_fst]
        exact (congrArg Prod.fst hrun).trans rfl
      rcases hprocess with ⟨c', hprocess⟩
      have hfault := Fault.chunked (p := { p.forbid with stage := .chunkedBody }) rfl
        (by subst hp; exact hprocess)
      exact .inr ⟨hcut, _, hfault.run⟩

/-- One call with the first bytes of a response. -/
theorem feed_begun (w : WireResponse requestMethod) {P : Bytes} (hin : w.Within limits)
    (hP : P <+: w.encode) (hne : w.body.framing = .untilClose ∨ P ≠ w.encode) :
    (¬ w.CutInLine limits P ∧ Waits w.body.framing ((fresh requestMethod limits).feed P)) ∨
      w.CutInLine limits P ∧ Refuses ((fresh requestMethod limits).feed P) := by
  rw [feed_fresh]
  rcases interims_begun requestMethod (k := w.body.framing) w.interims
    w.interim hin.interims hP with ⟨hlt, hwaits⟩ | ⟨Q, rfl, hQ⟩
  · refine .inl ⟨?_, hwaits⟩
    rintro ⟨Q, rfl, -⟩
    rw [List.length_append] at hlt
    omega
  · rw [interims_run _ _ _ w.interim hin.interims]
    rcases prefix_append_cases hQ with ⟨hhead, hlt⟩ | ⟨R, rfl, hR⟩
    · refine .inl ⟨?_, head_begun w.final hhead hlt hin.final⟩
      rintro ⟨R, heq, -⟩
      rw [List.append_cancel_left heq, List.length_append] at hlt
      omega
    · have hcut : w.CutInLine limits
          (w.interims.flatMap HeadBlock.encode ++ (w.final.encode ++ R)) ↔
            w.body.CutInLine limits R := by
        constructor
        · rintro ⟨S, heq, hcut⟩
          rwa [List.append_cancel_left (List.append_cancel_left heq)]
        · exact fun hcut => ⟨R, rfl, hcut⟩
      rw [hcut, final_run w.final R hin.final w.isFinal w.framed hin.body.fits]
      refine body_begun w.final w.body hin.body w.reset hR (hne.imp_right fun h heq => h ?_)
      rw [heq, WireResponse.encode]

/-- Nothing of a response is refused that is not cut in a full size line. -/
theorem feed_accepted (w : WireResponse requestMethod) {P pending : Bytes} (hin : w.Within limits)
    (hclose : w.body.framing = .untilClose → pending = []) (hP : P <+: w.encode ++ pending)
    (hcut : ¬ w.CutInLine limits P) : ∃ q, ((fresh requestMethod limits).feed P).1 = .ok q := by
  rcases prefix_append_cases hP with ⟨hpart, hlt⟩ | ⟨Q, rfl, hQ⟩
  · have hne : P ≠ w.encode := fun heq => hlt.ne (congrArg List.length heq)
    rcases feed_begun w hin hpart (.inr hne) with ⟨-, p, hfeed, -⟩ | ⟨hyes, -⟩
    · exact ⟨_, congrArg Prod.fst hfeed⟩
    · exact absurd hyes hcut
  · by_cases hself : w.body.framing = .untilClose
    · rw [hclose hself] at hQ
      have hnil : Q = [] := List.prefix_nil.mp hQ
      subst hnil
      have hpart : w.encode ++ [] <+: w.encode := by rw [List.append_nil]
      rcases feed_begun w hin hpart (.inl hself) with ⟨-, p, hfeed, -⟩ | ⟨hyes, -⟩
      · exact ⟨_, congrArg Prod.fst hfeed⟩
      · exact absurd hyes hcut
    · exact ⟨_, congrArg Prod.fst (feed_complete_iff.mpr ⟨w, Q, rfl, hin, hself, rfl⟩)⟩

end ResponseParser

end CppRequest
