import Fndr.Mcp.Overlap
import Fndr.Vault.Texts

set_option autoImplicit false

/-! # What an agent reads

From the screen to an answer a text passes the policy, redaction, merges, flushes, rebuilds and the
statements of a tool call, in two processes. What comes out at the end is what the policy let in at
the beginning (`released_of_view`): every text an answer carries tells captures that the host made,
in their order, each as the policy passed it, and no secret pattern is in it, whatever stopped on
the way and whatever the call's statements found. A snippet is of such a text. -/

namespace Fndr

open RustStd Rows Runs

section Released

variable [UnicodeTables] [UrlCrate] {F : Type} [ScoreArith F]

/-! ## Stories are free of secrets -/

/-- What passes the policy has no secret pattern. -/
theorem PersistCall.passedText_secretFree {call : PersistCall} {text : Str}
    (h : call.passedText = some text) : SecretFree SECRET_PATTERNS text := by
  obtain ⟨passed, hpolicy, rfl⟩ := Option.map_eq_some_iff.1 h
  exact recheckPolicy_secretFree (Except.eq_ok_of_toOption hpolicy)

/-- Nor has a story, however many captures were merged into it. -/
theorem secretFree_of_toldText {captures : List PersistCall} {text : Str}
    (h : toldText captures = some text) : SecretFree SECRET_PATTERNS text := by
  induction captures generalizing text with
  | nil => cases h
  | cons last earlier ih =>
      rcases toldText_cases h with ⟨-, hpassed⟩ | ⟨told, incoming, htold, hpassed, rfl⟩
      · exact last.passedText_secretFree hpassed
      · exact mergeStoryText_secretFree joinable_secretPatterns MERGED_TEXT_MAX_CHARS (ih htold)
          (last.passedText_secretFree hpassed)

/-! ## The captures behind a run of both processes -/

/-- The capture a host makes. -/
def SharedStep.capture (call : PersistCall) : SharedStep := .host (.persistCapture call)

/-- The text tells captures that the host made in this run, in their order, all of which passed the
    policy. -/
structure ToldIn (steps : List SharedStep) (text : Str) : Prop where
  captures : ∃ captures, toldText captures = some text ∧
    (captures.map SharedStep.capture).Sublist steps.reverse ∧ ∀ call ∈ captures, call.passedText.isSome
  secretFree : SecretFree SECRET_PATTERNS text

theorem VaultCall.absorbed_eq_some {v : Vault} {call : VaultCall} {c : Str × PersistCall}
    (h : call.absorbed F v = some c) : call = .persistCapture c.2 := by
  unfold VaultCall.absorbed at h
  split at h
  · split at h <;> cases h <;> rfl
  · cases h

/-- One call adds its own capture at most. -/
theorem Annals.exec_captures (annals : Annals) (call : VaultCall) :
    ((annals.exec F call).captures.map (SharedStep.capture ∘ Prod.snd)).Sublist
      (.host call :: annals.captures.map (SharedStep.capture ∘ Prod.snd)) := by
  refine (List.filter_sublist.map _).trans ?_
  rw [List.map_append]
  cases habsorbed : call.absorbed F annals.vault with
  | none => exact List.sublist_cons_self _ _
  | some c =>
      rw [VaultCall.absorbed_eq_some habsorbed]
      exact List.Sublist.refl _

variable (F) in
/-- A run of both processes has the account of its captures. -/
theorem annals_of_run (steps : List SharedStep) {annals : Annals} {shared : SharedVault}
    (hvault : annals.vault = shared.vault) (hkept : annals.Kept) : ∃ annals' : Annals,
      annals'.vault = (final (SharedVault.exec F) shared steps).vault ∧ annals'.Kept ∧
      (annals'.captures.map (SharedStep.capture ∘ Prod.snd)).Sublist
        (steps.reverse ++ annals.captures.map (SharedStep.capture ∘ Prod.snd)) := by
  induction steps generalizing annals shared with
  | nil => exact ⟨annals, hvault, hkept, List.Sublist.refl _⟩
  | cons step steps ih =>
      have hstep := shared.exec_vault (F := F) step
      rw [List.reverse_cons, List.append_assoc, List.singleton_append]
      cases hcall : step.hostCall with
      | none =>
          rw [hcall] at hstep
          obtain ⟨annals', hvault', hkept', hfrom⟩ := ih (hvault.trans hstep.symm) hkept
          exact ⟨annals', hvault', hkept',
            hfrom.trans (List.Sublist.append_left (List.sublist_cons_self _ _) _)⟩
      | some call =>
          rw [hcall] at hstep
          have hsame : (annals.exec F call).vault = (shared.exec F step).vault := by
            rw [hstep, ← hvault]
            rfl
          obtain ⟨annals', hvault', hkept', hfrom⟩ := ih hsame (hkept.exec F call)
          cases step with
          | host other =>
              cases hcall
              exact ⟨annals', hvault', hkept',
                hfrom.trans (List.Sublist.append_left (annals.exec_captures call) _)⟩
          | insert => cases hcall

/-- Every text in the vault of a run is told in the run. -/
theorem toldIn_of_hasText {before steps : List SharedStep} (hbefore : before <+: steps)
    {chunk : Str × Str} {text : Str} (h : (final (SharedVault.exec F) SharedVault.empty
      before).mcp.store.db.HasText chunk text) : ToldIn steps text := by
  have hvault : Annals.empty.vault = SharedVault.empty.vault := rfl
  obtain ⟨annals, hannals, hkept, hfrom⟩ := annals_of_run F before hvault Annals.kept_empty
  obtain ⟨c, hc, -, -, rfl⟩ := h
  have hc' : c ∈ annals.vault.store.db.chunks := by
    rw [hannals]
    exact hc
  have htold := hkept.remembers.text c hc'
  refine ⟨⟨_, htold, ?_, hkept.remembers.passed c hc'⟩, secretFree_of_toldText htold⟩
  have hrun : (annals.captures.map (SharedStep.capture ∘ Prod.snd)).Sublist before.reverse := by
    simpa [Annals.empty] using hfrom
  have hstory : ((capturesOf annals.captures c.recordId).map SharedStep.capture).Sublist
      (annals.captures.map (SharedStep.capture ∘ Prod.snd)) := by
    rw [capturesOf, List.map_map]
    exact List.filter_sublist.map _
  exact (hstory.trans hrun).trans hbefore.sublist.reverse

variable [Fts5]

/-- **What an agent reads, the policy let in.** Let the statements of a call find states of one run
    of both processes. Every text its answer carries tells captures that the host made in that run,
    in their order and each as the policy passed it, and has no secret pattern; every snippet is
    empty or of such a text. -/
theorem released_of_view {steps : List SharedStep} {env : CallEnv} {server : FndrMcpServer}
    {view : View} {call : ToolCall} {response : Response}
    (hview : ∀ shared, view.Sees shared → ∃ before, before <+: steps ∧
      shared = final (SharedVault.exec F) SharedVault.empty before)
    (hroute : ∀ route ∈ server.vectorRoute, route.2.Over view.index.vault.rows)
    (h : server.innerAt env view call = .ok response) :
    (∀ cited ∈ response.texts, ToldIn steps cited.2) ∧
      ∀ cited ∈ response.snippets, cited.2 = [] ∨
        ∃ text, ToldIn steps text ∧ SnippetOf cited.2 text := by
  have hreach : ∀ shared, view.Sees shared → SharedVault.empty.Reaches F shared := by
    intro shared hsees
    obtain ⟨before, -, rfl⟩ := hview shared hsees
    exact ⟨before, rfl⟩
  have hcited : response.Cited view :=
    cited_of_innerAt ⟨(hreach _ .index).rowsHaveChunks, hroute⟩
      (hreach _ (.read .recentDecisions)).ledgersSound h
  constructor
  · intro cited hmem
    obtain ⟨shared, hsees, htext⟩ := hcited.texts cited hmem
    obtain ⟨before, hbefore, rfl⟩ := hview shared hsees
    exact toldIn_of_hasText hbefore htext
  · intro cited hmem
    refine (hcited.snippets cited hmem).imp_right (fun hsaw => ?_)
    obtain ⟨shared, hsees, text, htext, hsnippet⟩ := hsaw
    obtain ⟨before, hbefore, rfl⟩ := hview shared hsees
    exact ⟨text, toldIn_of_hasText hbefore htext, hsnippet⟩

end Released

section Example

attribute [local instance] asciiTables noUrls wordFts

/-- A note, the same note with another text on the screen, and a flush. -/
def noteThenBudget : List SharedStep :=
  [.capture (noteCall "1".toList 1000), .capture budgetCall,
    .host (.flushOnce constantEmbedder 3000 (tableOrder _) none)]

/-- The vault after one capture. -/
def afterNote : SharedVault :=
  final (SharedVault.exec ℚ) SharedVault.empty [.capture (noteCall "1".toList 1000)]

/-- The vault after both. -/
def afterBudget : SharedVault := final (SharedVault.exec ℚ) SharedVault.empty noteThenBudget

/-- The record is found before the second capture is merged into it, and its chunk after that. -/
theorem noteThenBudget_texts : ((routedServer afterBudget).innerAt quietEnv
    (.twoStates afterNote afterBudget) (.sourceEvidence ⟨"1".toList, some true⟩)).toOption.map
      Response.texts = some [(("1".toList, "c1".toList),
        "plan the next quarter • Review the budget • Book the room".toList)] := by
  decide +kernel

/-- The text tells both captures. -/
theorem released_of_view_noteThenBudget : ∃ response, (routedServer afterBudget).innerAt quietEnv
      (.twoStates afterNote afterBudget) (.sourceEvidence ⟨"1".toList, some true⟩) = .ok response ∧
    ∀ cited ∈ response.texts, ToldIn noteThenBudget cited.2 ∧ cited.2 =
      "plan the next quarter • Review the budget • Book the room".toList := by
  obtain ⟨response, hresponse, htexts⟩ := Option.map_eq_some_iff.1 noteThenBudget_texts
  have hanswer := Except.eq_ok_of_toOption hresponse
  have hview : ∀ shared, (View.twoStates afterNote afterBudget).Sees shared →
      ∃ before, before <+: noteThenBudget ∧
        shared = final (SharedVault.exec ℚ) SharedVault.empty before := by
    intro shared hsees
    rcases View.sees_twoStates hsees with rfl | rfl
    · exact ⟨_, List.prefix_append [SharedStep.capture (noteCall "1".toList 1000)] _, rfl⟩
    · exact ⟨_, List.prefix_refl noteThenBudget, rfl⟩
  have htold := (released_of_view hview (routedServer_over _ _) hanswer).1
  refine ⟨response, hanswer, fun cited hcited => ⟨htold cited hcited, ?_⟩⟩
  rw [htexts, List.mem_singleton] at hcited
  rw [hcited]

end Example

end Fndr
