import Fndr.Library.Collapse
import Fndr.Library.Gaps
import Fndr.TextSignal.Salience

set_option autoImplicit false

/-! # Sentences of a block

What `split_block_into_sentences` keeps of a block. The loop cuts at breaks only and keeps a buffer
whose candidate is too short, so the sentences so far are pieces of the text in front of the buffer
(`cutSo_splitSentences`). With the rest of the buffer as the last piece they are the block but for
white space (`gapped_splitBlockIntoSentences`). The fallback of the source, the block itself when
there is no sentence, is never taken. -/

namespace Fndr

open RustStd Gaps

/-! ## The loop -/

/-- A sentence that the loop cuts off. -/
structure Sentence (s : Str) : Prop where
  trimmed : trim s = s
  long : 12 ≤ s.length

theorem Sentence.ne_nil {s : Str} (h : Sentence s) : s ≠ [] :=
  List.ne_nil_of_length_pos (Nat.lt_of_lt_of_le (by decide) h.long)

/-- The text has been cut into sentences and a buffer behind them. -/
structure CutSo (text : Str) (sentences : List Str) (buffer : Str) : Prop where
  gapped : ∃ front, text = front ++ buffer ∧ Gapped isWhitespace front sentences
  sentence : ∀ s ∈ sentences, Sentence s

namespace CutSo

variable {text buffer : Str} {sentences : List Str}

/-- A character goes into the buffer. -/
theorem push (h : CutSo text sentences buffer) (c : Char) :
    CutSo (text ++ [c]) sentences (buffer ++ [c]) := by
  obtain ⟨front, rfl, hgapped⟩ := h.gapped
  exact ⟨⟨front, List.append_assoc front buffer [c], hgapped⟩, h.sentence⟩

/-- The buffer without the white space around it is the next piece. -/
theorem gapped_concat (h : CutSo text sentences buffer) :
    Gapped isWhitespace text (sentences ++ [trim buffer]) := by
  obtain ⟨front, rfl, hgapped⟩ := h.gapped
  obtain ⟨before, behind, hbuffer, hbefore, hbehind⟩ := exists_trim_append buffer
  have hnext := hgapped.concat (trim buffer) hbefore hbehind
  rwa [← hbuffer] at hnext

/-- The buffer is cut off when its candidate is long enough. -/
theorem cut (h : CutSo text sentences buffer) (hlong : 12 ≤ (trim buffer).length) :
    CutSo text (sentences ++ [trim buffer]) [] where
  gapped := ⟨text, (List.append_nil text).symm, h.gapped_concat⟩
  sentence := List.forall_mem_append.2
    ⟨h.sentence, List.forall_mem_singleton.2 ⟨trim_trim buffer, hlong⟩⟩

/-- A buffer of white space is a gap. -/
theorem gapped_of_blank (h : CutSo text sentences buffer) (hblank : trim buffer = []) :
    Gapped isWhitespace text sentences := by
  obtain ⟨front, rfl, hgapped⟩ := h.gapped
  obtain ⟨before, behind, hbuffer, hbefore, hbehind⟩ := exists_trim_append buffer
  rw [hblank, List.append_nil] at hbuffer
  rw [hbuffer]
  exact hgapped.append_gap (IsGap.append hbefore hbehind)

end CutSo

/-- The loop, by recursion on the characters it has still to read. -/
theorem cutSo_splitSentences {text : Str} {sentences : List Str} {buffer : Str} (rest : Str)
    (h : CutSo text sentences buffer) :
    CutSo (text ++ rest) (splitSentences sentences buffer rest).1
      (splitSentences sentences buffer rest).2 := by
  induction rest generalizing text sentences buffer with
  | nil =>
      rw [List.append_nil]
      exact h
  | cons c rest ih =>
      rw [List.append_cons, splitSentences]
      dsimp only
      split
      · split
        · next hlong => exact ih ((h.push c).cut hlong)
        · exact ih (h.push c)
      · exact ih (h.push c)

/-! ## The block -/

theorem cutSo_trim (block : Str) :
    CutSo (trim block) (splitSentences [] [] (trim block)).1
      (splitSentences [] [] (trim block)).2 := by
  have hstart : CutSo [] [] [] := ⟨⟨[], rfl, .gap nofun⟩, nofun⟩
  exact cutSo_splitSentences (trim block) hstart

/-- The block is never its own sentence for want of others: what is cut off or left has all of it. -/
theorem splitBlockIntoSentences_eq {block : Str} (h : trim block ≠ []) :
    splitBlockIntoSentences block =
      if trim (splitSentences [] [] (trim block)).2 = [] then
        (splitSentences [] [] (trim block)).1
      else
        (splitSentences [] [] (trim block)).1 ++
          [trim (splitSentences [] [] (trim block)).2] := by
  rw [splitBlockIntoSentences, if_neg h]
  dsimp only
  split
  · next hblank =>
    refine if_neg fun hnone => h ?_
    have hgapped := (cutSo_trim block).gapped_of_blank hblank
    rw [hnone] at hgapped
    rw [← trim_trim, trim_eq_nil_iff]
    exact hgapped.isGap
  · exact if_neg (List.concat_ne_nil _ _)

/-- **A block is its sentences with white space around and between them.** -/
theorem gapped_splitBlockIntoSentences (block : Str) :
    Gapped isWhitespace block (splitBlockIntoSentences block) := by
  by_cases h : trim block = []
  · rw [splitBlockIntoSentences, if_pos h]
    exact .gap ((trim_eq_nil_iff block).1 h)
  · have hcut := cutSo_trim block
    have hgapped : Gapped isWhitespace (trim block) (splitBlockIntoSentences block) := by
      rw [splitBlockIntoSentences_eq h]
      split
      · next hblank => exact hcut.gapped_of_blank hblank
      · exact hcut.gapped_concat
    obtain ⟨before, behind, hblock, hbefore, hbehind⟩ := exists_trim_append block
    have hwhole := (hgapped.gap_append hbefore).append_gap hbehind
    rwa [← hblock] at hwhole

/-- What is cut off by the loop is trimmed, and so is the rest of the buffer. -/
theorem trimmed_of_mem_splitBlockIntoSentences {block s : Str}
    (hs : s ∈ splitBlockIntoSentences block) : s ≠ [] ∧ trim s = s := by
  by_cases h : trim block = []
  · rw [splitBlockIntoSentences, if_pos h] at hs
    cases hs
  · have hcut : ∀ s ∈ (splitSentences [] [] (trim block)).1, s ≠ [] ∧ trim s = s := by
      intro s hs
      have hsentence := (cutSo_trim block).sentence s hs
      exact ⟨hsentence.ne_nil, hsentence.trimmed⟩
    rw [splitBlockIntoSentences_eq h] at hs
    split at hs
    · exact hcut s hs
    · next htail =>
      rcases List.mem_append.1 hs with hs | hs
      · exact hcut s hs
      · cases List.mem_singleton.1 hs
        exact ⟨htail, trim_trim _⟩

/-- Only the rest of the buffer, which comes last, may be shorter than a sentence. -/
theorem sentence_of_mem_dropLast {block s : Str}
    (hs : s ∈ (splitBlockIntoSentences block).dropLast) : Sentence s := by
  by_cases h : trim block = []
  · rw [splitBlockIntoSentences, if_pos h] at hs
    cases hs
  · rw [splitBlockIntoSentences_eq h] at hs
    split at hs
    · exact (cutSo_trim block).sentence s (List.mem_of_mem_dropLast hs)
    · rw [List.dropLast_concat] at hs
      exact (cutSo_trim block).sentence s hs

/-- What is said of the sentences of a block. -/
structure SentencesOf (block : Str) (sentences : List Str) : Prop where
  lossless : sentences.flatten.filter (fun c => !isWhitespace c) =
    block.filter (fun c => !isWhitespace c)
  trimmed : ∀ s ∈ sentences, s ≠ [] ∧ trim s = s
  long : ∀ s ∈ sentences.dropLast, 12 ≤ s.length
  blank : sentences = [] ↔ ∀ c ∈ block, isWhitespace c = true

/-- **Sentence splitting loses and invents nothing.** -/
theorem sentencesOf_splitBlockIntoSentences (block : Str) :
    SentencesOf block (splitBlockIntoSentences block) where
  lossless := (gapped_splitBlockIntoSentences block).filter_eq
  trimmed := fun s hs => trimmed_of_mem_splitBlockIntoSentences hs
  long := fun s hs => (sentence_of_mem_dropLast hs).long
  blank := by
    constructor
    · intro hnone
      have hgapped := gapped_splitBlockIntoSentences block
      rw [hnone] at hgapped
      exact hgapped.isGap
    · intro hblank
      rw [splitBlockIntoSentences, if_pos ((trim_eq_nil_iff block).2 hblank)]

/-- What is ranked is sentences of the blocks, as they are. -/
theorem exists_block_of_mem_rankedTexts {F : Type} [ScoreArith F] (score : AppIdentity → Str → F)
    (order : SpanOrder F) (cleaned : Str) (app : AppIdentity) :
    ∀ text ∈ rankedTexts score order cleaned app,
      ∃ block ∈ splitBlocks cleaned, text ∈ splitBlockIntoSentences block := by
  refine forall_mem_rankedTexts score order cleaned app fun block hblock sentence hmem _ => ?_
  rw [(trimmed_of_mem_splitBlockIntoSentences hmem).2]
  exact ⟨block, hblock, hmem⟩

example : splitBlockIntoSentences " No. It failed again! Retry? ".toList =
    ["No. It failed again!".toList, "Retry?".toList] := by decide

end Fndr
