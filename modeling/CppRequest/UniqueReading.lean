import CppRequest.WireResponse

/-!
# Unique reading

No response is the beginning of another one: a stream that begins with a response
begins with one response only, and the bytes behind it are determined. A response
whose body lasts until the end of input is compared with whole streams.
-/

namespace CppRequest

open Search
open ResponseParser (BodyFraming Framed)

/-! ## Chunked messages -/

theorem SizeLine.size_eq {n n' : ℕ} {l : SizeLine n} {l' : SizeLine n'} (h : l.line = l'.line) :
    n = n' := by
  have hsize := l.accepted
  rw [h, l'.accepted] at hsize
  exact (Except.ok.inj hsize).symm

theorem SizeLine.ext {n : ℕ} {l l' : SizeLine n} (h : l.line = l'.line) : l = l' := by
  cases l
  cases l'
  cases h
  rfl

theorem TrailerLine.ext {t t' : TrailerLine} (h : t.line = t'.line) : t = t' := by
  cases t
  cases t'
  cases h
  rfl

theorem Chunk.ext {c c' : Chunk} (hdata : c.data = c'.data) (hline : c.size.line = c'.size.line) :
    c = c' := by
  obtain ⟨data, _, size⟩ := c
  obtain ⟨data', _, size'⟩ := c'
  cases hdata
  cases SizeLine.ext hline
  rfl

theorem Chunk.encode_inj {c c' : Chunk} {a b : Bytes} (h : c.encode ++ a = c'.encode ++ b) :
    c = c' ∧ a = b := by
  simp only [Chunk.encode, List.append_assoc] at h
  rcases c.size.leads.inj c'.size.leads h with ⟨hline, hrest⟩
  rcases List.append_inj hrest (SizeLine.size_eq hline) with ⟨hdata, htail⟩
  exact ⟨Chunk.ext hdata hline, List.append_cancel_left htail⟩

/-- The last size line is not that of a chunk. -/
theorem Chunk.encode_ne_last {c : Chunk} {last : SizeLine 0} {a b : Bytes} :
    last.line ++ (crlf ++ a) ≠ c.encode ++ b := by
  intro h
  rw [Chunk.encode, List.append_assoc, List.append_assoc] at h
  rcases last.leads.inj c.size.leads h with ⟨hline, -⟩
  exact c.length_ne_zero (SizeLine.size_eq hline).symm

theorem TrailerLine.encode_inj {t t' : TrailerLine} {a b : Bytes}
    (h : t.encode ++ a = t'.encode ++ b) : t = t' ∧ a = b := by
  rw [TrailerLine.encode, TrailerLine.encode, List.append_assoc, List.append_assoc] at h
  rcases t.leads.inj t'.leads h with ⟨hline, hrest⟩
  exact ⟨TrailerLine.ext hline, hrest⟩

/-- The empty line is not a trailer line. -/
theorem TrailerLine.encode_ne_empty {t : TrailerLine} {a b : Bytes} :
    crlf ++ a ≠ t.encode ++ b := by
  intro h
  rw [TrailerLine.encode, List.append_assoc] at h
  rcases ChunkedDecoder.leads_nil.inj t.leads h with ⟨hline, -⟩
  exact ChunkedDecoder.validTrailerLine_ne_nil t.valid hline.symm

namespace ChunkedMessage

theorem trailerSection_inj {trailers trailers' : List TrailerLine} {a b : Bytes}
    (h : trailerSection trailers ++ a = trailerSection trailers' ++ b) :
    trailers = trailers' ∧ a = b := by
  unfold trailerSection at h
  induction trailers generalizing trailers' with
  | nil =>
    cases trailers' with
    | nil => exact ⟨rfl, List.append_cancel_left h⟩
    | cons t trailers' =>
      rw [List.flatMap_nil, List.nil_append, List.flatMap_cons, List.append_assoc,
        List.append_assoc] at h
      exact absurd h TrailerLine.encode_ne_empty
  | cons t trailers ih =>
    cases trailers' with
    | nil =>
      rw [List.flatMap_nil, List.nil_append, List.flatMap_cons, List.append_assoc,
        List.append_assoc] at h
      exact absurd h.symm TrailerLine.encode_ne_empty
    | cons t' trailers' =>
      rw [List.flatMap_cons, List.flatMap_cons, List.append_assoc, List.append_assoc,
        List.append_assoc, List.append_assoc] at h
      rcases TrailerLine.encode_inj h with ⟨rfl, hrest⟩
      rw [← List.append_assoc, ← List.append_assoc] at hrest
      rcases ih hrest with ⟨rfl, rfl⟩
      exact ⟨rfl, rfl⟩

theorem encode_inj {m m' : ChunkedMessage} {a b : Bytes} (h : m.encode ++ a = m'.encode ++ b) :
    m = m' ∧ a = b := by
  obtain ⟨chunks, last, trailers⟩ := m
  obtain ⟨chunks', last', trailers'⟩ := m'
  induction chunks generalizing chunks' with
  | nil =>
    simp only [encode, List.flatMap_nil, List.nil_append, List.append_assoc] at h
    cases chunks' with
    | nil =>
      simp only [List.flatMap_nil, List.nil_append] at h
      rcases last.leads.inj last'.leads h with ⟨hline, hrest⟩
      rcases trailerSection_inj hrest with ⟨rfl, rfl⟩
      rw [SizeLine.ext hline]
      exact ⟨rfl, rfl⟩
    | cons c chunks' =>
      rw [List.flatMap_cons, List.append_assoc] at h
      exact absurd h Chunk.encode_ne_last
  | cons c chunks ih =>
    simp only [encode, List.flatMap_cons, List.append_assoc] at h ih
    cases chunks' with
    | nil =>
      simp only [List.flatMap_nil, List.nil_append] at h
      exact absurd h.symm Chunk.encode_ne_last
    | cons c' chunks' =>
      rw [List.flatMap_cons, List.append_assoc] at h
      rcases Chunk.encode_inj h with ⟨rfl, hrest⟩
      rcases ih chunks' hrest with ⟨hm, rfl⟩
      cases hm
      exact ⟨rfl, rfl⟩

end ChunkedMessage

/-! ## Heads -/

theorem HeadBlock.encode_inj {h h' : HeadBlock} {a b : Bytes}
    (heq : h.encode ++ a = h'.encode ++ b) : h = h' ∧ a = b := by
  rw [HeadBlock.encode, HeadBlock.encode, List.append_assoc, List.append_assoc] at heq
  rcases h.leads.inj h'.leads heq with ⟨hblock, hrest⟩
  refine ⟨?_, hrest⟩
  obtain ⟨block, head, framing, _, hparses, hanalyzed⟩ := h
  obtain ⟨block', head', framing', _, hparses', hanalyzed'⟩ := h'
  cases hblock
  cases Except.ok.inj (hparses.symm.trans hparses')
  cases Except.ok.inj (hanalyzed.symm.trans hanalyzed')
  rfl

/-- Interim heads end where the final head begins. -/
theorem heads_inj {interims interims' : List HeadBlock} {final final' : HeadBlock} {a b : Bytes}
    (hinterim : ∀ h ∈ interims, h.Interim) (hinterim' : ∀ h ∈ interims', h.Interim)
    (hfinal : isInterimStatus final.head.statusCode = false)
    (hfinal' : isInterimStatus final'.head.statusCode = false)
    (h : interims.flatMap HeadBlock.encode ++ (final.encode ++ a) =
      interims'.flatMap HeadBlock.encode ++ (final'.encode ++ b)) :
    interims = interims' ∧ final = final' ∧ a = b := by
  induction interims generalizing interims' with
  | nil =>
    cases interims' with
    | nil =>
      rcases HeadBlock.encode_inj h with ⟨rfl, rfl⟩
      exact ⟨rfl, rfl, rfl⟩
    | cons h' interims' =>
      rw [List.flatMap_cons, List.append_assoc] at h
      rcases HeadBlock.encode_inj h with ⟨rfl, -⟩
      have hstatus := (hinterim' final List.mem_cons_self).status
      exact absurd (hfinal.symm.trans hstatus) Bool.false_ne_true
  | cons h₁ interims ih =>
    rw [List.flatMap_cons, List.append_assoc] at h
    cases interims' with
    | nil =>
      rcases HeadBlock.encode_inj h with ⟨rfl, -⟩
      have hstatus := (hinterim h₁ List.mem_cons_self).status
      exact absurd (hfinal'.symm.trans hstatus) Bool.false_ne_true
    | cons h₂ interims' =>
      rw [List.flatMap_cons, List.append_assoc] at h
      rcases HeadBlock.encode_inj h with ⟨rfl, hrest⟩
      rcases ih (fun h hm => hinterim h (List.mem_cons_of_mem _ hm))
        (fun h hm => hinterim' h (List.mem_cons_of_mem _ hm)) hrest with ⟨rfl, rfl, rfl⟩
      exact ⟨rfl, rfl, rfl⟩

/-! ## Responses -/

theorem Framed.unique {requestMethod : Method} {statusCode : ℕ} {framing : FramingInfo}
    {k k' : BodyFraming} (h : Framed requestMethod statusCode framing k)
    (h' : Framed requestMethod statusCode framing k') : k = k' := by
  cases h with
  | none hterm => cases h' <;> simp_all
  | chunked hterm hte => cases h' <;> simp_all
  | length hterm hte hcl => cases h' <;> simp_all
  | untilClose hterm hte hcl => cases h' <;> simp_all

theorem MessageBody.encode_inj {body body' : MessageBody} {a b : Bytes}
    (hframing : body.framing = body'.framing) (hclose : body.framing = .untilClose → a = [] ∧ b = [])
    (h : body.encode ++ a = body'.encode ++ b) : body = body' ∧ a = b := by
  cases body with
  | none =>
    cases body' with
    | none => exact ⟨rfl, h⟩
    | chunked | length | untilClose => cases hframing
  | chunked m =>
    cases body' with
    | chunked m' =>
      rcases ChunkedMessage.encode_inj h with ⟨rfl, rfl⟩
      exact ⟨rfl, rfl⟩
    | none | length | untilClose => cases hframing
  | length data =>
    cases body' with
    | length data' =>
      rcases List.append_inj h (BodyFraming.length.inj hframing) with ⟨hdata, hrest⟩
      exact ⟨congrArg _ hdata, hrest⟩
    | none | chunked | untilClose => cases hframing
  | untilClose data =>
    cases body' with
    | untilClose data' =>
      rcases hclose rfl with ⟨rfl, rfl⟩
      exact ⟨congrArg _ (List.append_cancel_right h), rfl⟩
    | none | chunked | length => cases hframing

theorem WireResponse.encode_inj {requestMethod : Method} {w w' : WireResponse requestMethod}
    {a b : Bytes} (hclose : w.body.framing = .untilClose → a = [] ∧ b = [])
    (h : w.encode ++ a = w'.encode ++ b) : w = w' ∧ a = b := by
  obtain ⟨interims, hinterim, final, hfinal, body, hframed, _⟩ := w
  obtain ⟨interims', hinterim', final', hfinal', body', hframed', _⟩ := w'
  simp only [encode, List.append_assoc] at h
  rcases heads_inj hinterim hinterim' hfinal hfinal' h with ⟨rfl, rfl, hbody⟩
  rcases MessageBody.encode_inj (Framed.unique hframed hframed') hclose hbody with ⟨rfl, rfl⟩
  exact ⟨rfl, rfl⟩

end CppRequest
