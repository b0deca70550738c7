import CppRequest.LimitEnforcement

/-!
# Truncated responses

A part of a response that says where it ends never completes, whether more calls or
the end of input follow. The exception is a call made after a refusal: the refused
call has advanced the chunked decoder without erasing what it read, and the next call
reads those bytes again in the wrong stage.
-/

namespace CppRequest.ResponseParser

open Resumable

/-- Some calls of `feed` complete on `S`, and have then consumed its first `n` bytes. -/
def CompletesOn (requestMethod : Method) (limits : ResponseLimits) (S : Bytes) (n : ℕ) : Prop :=
  ∃ pieces : List Bytes, pieces.flatten = S ∧
    failure ((fresh requestMethod limits).feedAll pieces).1 = none ∧
    ((fresh requestMethod limits).feedAll pieces).2.isComplete = true ∧
    ((fresh requestMethod limits).feedAll pieces).2.pendingBytes = S.drop n ∧ n ≤ S.length

/-- No call completes, and if none has failed the end of input is an error. -/
structure Detected (requestMethod : Method) (limits : ResponseLimits) (pieces : List Bytes) :
    Prop where
  answers : .ok .complete ∉ ((fresh requestMethod limits).feedEach pieces).1
  eof : (∀ e, .error e ∉ ((fresh requestMethod limits).feedEach pieces).1) →
    ((fresh requestMethod limits).feedEach pieces).2.isComplete = false ∧
    ((fresh requestMethod limits).feedEach pieces).2.finishEof.1 =
      .error { code := .unexpectedEof } ∧
    ((fresh requestMethod limits).feedEach pieces).2.finishEof.2.isComplete = false

/-- `S` begins with a response of which `P` ends between the CR and the LF of a size line of the
greatest length. -/
def CutsSizeLine (requestMethod : Method) (limits : ResponseLimits) (S P : Bytes) : Prop :=
  ∃ w : WireResponse requestMethod, ∃ rest, S = w.encode ++ rest ∧ w.CutInLine limits P

theorem exists_response {requestMethod : Method} {limits : ResponseLimits} {S : Bytes} {n : ℕ}
    (h : CompletesOn requestMethod limits S n) :
    ∃ w : WireResponse requestMethod, ∃ rest, S = w.encode ++ rest ∧ S.take n = w.encode ∧
      w.Within limits ∧ w.body.framing ≠ .untilClose := by
  rcases h with ⟨pieces, rfl, hnone, hcomplete, hpending, hn⟩
  rcases feed_of_no_failure hnone with ⟨q, hfeed⟩
  cases (complete_iff_of_run hfeed).mp hcomplete
  rcases feed_complete_iff.mp hfeed with ⟨w, rest, hflat, hin, hself, hstate⟩
  refine ⟨w, rest, hflat, ?_, hin, hself⟩
  have hrest : rest = pieces.flatten.drop n := by
    rw [← hpending, hstate]
    rfl
  have hsplit := List.take_append_drop n pieces.flatten
  rw [← hrest, hflat] at hsplit
  rw [hflat]
  exact List.append_cancel_right hsplit

theorem truncation_detected (requestMethod : Method) (limits : ResponseLimits) (S : Bytes) (n : ℕ)
    (hS : CompletesOn requestMethod limits S n) (pieces : List Bytes)
    (hpre : pieces.flatten <+: S.take n) (hproper : pieces.flatten ≠ S.take n)
    (hcut : ∀ c, c <+: pieces → c ≠ pieces → ¬ CutsSizeLine requestMethod limits S c.flatten) :
    Detected requestMethod limits pieces := by
  rcases exists_response hS with ⟨w, rest, rfl, htake, hin, hself⟩
  rw [htake] at hpre hproper
  have hpart : ∀ {c}, c <+: pieces → c.flatten <+: w.encode ∧ c.flatten ≠ w.encode := by
    rintro c ⟨d, rfl⟩
    rw [List.flatten_append] at hpre hproper
    refine ⟨(List.prefix_append _ _).trans hpre, fun heq => hproper ?_⟩
    have hle := hpre.length_le
    rw [heq, List.length_append] at hle
    rw [heq, List.eq_nil_of_length_eq_zero (by omega : d.flatten.length = 0), List.append_nil]
  have heach : (fresh requestMethod limits).feedEach pieces =
      (fresh requestMethod limits).feedAll pieces := by
    refine feedEach_eq_feedAll _ _ fun c hc hne => failure_eq_none fun c' hc' => ?_
    have hstrict : c' ≠ pieces := by
      rintro rfl
      exact hne (hc.eq_of_length_le hc'.length_le)
    rcases hpart (hc'.trans hc) with ⟨hp, -⟩
    exact feed_accepted w hin (fun _ => rfl) (by rwa [List.append_nil])
      fun hbad => hcut c' (hc'.trans hc) hstrict ⟨w, rest, rfl, hbad⟩
  have hanswer : ∀ c, c <+: pieces →
      Waits w.body.framing ((fresh requestMethod limits).feed c.flatten) ∨
        Refuses ((fresh requestMethod limits).feed c.flatten) := by
    intro c hc
    rcases hpart hc with ⟨hp, hne⟩
    exact (feed_begun w hin hp (.inr hne)).imp And.right And.right
  refine ⟨fun hmem => ?_, fun hok => ?_⟩
  · rw [heach] at hmem
    rcases resumable.mem_feedAll hmem with ⟨c, -, hc, hr⟩
    rcases hanswer c hc with ⟨p, hfeed, -⟩ | ⟨p, hfeed⟩
    · exact nomatch hr.trans (congrArg Prod.fst hfeed)
    · exact nomatch hr.trans (congrArg Prod.fst hfeed)
  · rw [heach] at hok ⊢
    rcases feed_of_no_failure (failure_of_forall_ok hok) with ⟨q, hfeed⟩
    rcases hanswer pieces List.prefix_rfl with ⟨p, hwaits, heof⟩ | ⟨p, hrefused⟩
    · rw [hfeed] at hwaits
      rw [(Prod.mk.inj hwaits).2]
      rw [if_neg hself] at heof
      have hopen := finishEof_error heof
      exact ⟨hopen, congrArg Prod.fst heof, by rw [heof]; exact hopen⟩
    · rw [hfeed] at hrefused
      cases hrefused

/-- A response with one chunk, whose data reads like the end of a chunked message. -/
def nestedStream : Bytes :=
  bytes "HTTP/1.1 200 OK\r\nTransfer-Encoding: chunked\r\n\r\n5\r\n0\r\n\r\n\r\n0\r\n\r\n"

theorem truncation_detected_cut :
    Detected .get { maxChunkLineBytes := 1 } [nestedStream.take 60] := by
  refine truncation_detected .get { maxChunkLineBytes := 1 } nestedStream nestedStream.length
    ⟨[nestedStream], List.append_nil _, rfl, rfl, rfl, le_rfl⟩ [nestedStream.take 60]
    (by decide) (by decide) fun c hc hne => ?_
  have hnil : c = [] := by
    rcases List.prefix_cons_iff.mp hc with rfl | ⟨t, rfl, ht⟩
    · rfl
    · exact absurd (by rw [List.prefix_nil.mp ht]) hne
  subst hnil
  rintro ⟨w, rest, -, Q, hQ, -⟩
  have hlen := congrArg List.length hQ
  simp [HeadBlock.encode, crlfcrlf] at hlen

/-- The second call ends behind the CR of the last size line and is refused. The third brings no
bytes; the decoder reads the data of the chunk as size lines and completes. -/
def nestedPieces : List Bytes :=
  [bytes "HTTP/1.1 200 OK\r\nTransfer-Encoding: chunked\r\n\r\n5\r\n",
    bytes "0\r\n\r\n\r\n0\r", []]

theorem call_after_refusal_completes :
    CompletesOn .get { maxChunkLineBytes := 1 } nestedStream nestedStream.length ∧
      nestedPieces.flatten <+: nestedStream.take nestedStream.length ∧
      nestedPieces.flatten ≠ nestedStream.take nestedStream.length ∧
      ¬ Detected .get { maxChunkLineBytes := 1 } nestedPieces := by
  refine ⟨⟨[nestedStream], List.append_nil _, rfl, rfl, rfl, le_rfl⟩, by decide, by decide,
    fun h => ?_⟩
  have hanswers : ((fresh .get { maxChunkLineBytes := 1 }).feedEach nestedPieces).1 =
      [.ok .needMore, .error { code := .responseLimitExceeded }, .ok .complete] := rfl
  have hno := h.answers
  rw [hanswers] at hno
  exact hno (by simp)

end CppRequest.ResponseParser
