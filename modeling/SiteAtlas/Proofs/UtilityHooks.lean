import SiteAtlas.Proofs.Classification
import SiteAtlas.Proofs.PreferredReading

/-!
# Hooks in utilities

The test for utilities looks for hooks that are constants and plain functions only, so the hooks in
the file of a utility are exactly those that are asynchronous or the default.

A search without an answer has tried everything that the pattern reaches, so what one pattern does
not find is a fact about others that begin alike.
-/

namespace SiteAtlas

open List

variable {c : Cursor}

section Failing

variable {β γ : Type} {f f' : Cursor → Option β} {g : Cursor → Option γ}

/-- One place that gives no answer. -/
theorem bind_eq_of_none (h : ∀ d, g d = none → f d = f' d) {place : Option Cursor}
    (hg : place.bind g = none) : place.bind f = place.bind f' := by
  cases place with
  | none => rfl
  | some d => exact h d hg

section Turns

variable (step : Cursor → (Cursor → Option β) → Option β)
  (tried : Cursor → (Cursor → Option γ) → Option γ)
  (hstep : ∀ k k' l c, (∀ d, l d = none → k d = k' d) → tried c l = none → step c k = step c k')
include hstep

/-- Turns without an answer have tried every place. -/
theorem turns_eq_of_none (h : ∀ d, g d = none → f d = f' d) {n : Nat}
    (hg : turns tried n c g = none) : turns step n c f = turns step n c f' := by
  induction n generalizing c with
  | zero => exact h c hg
  | succ n ih => exact hstep _ _ _ c (fun d hd => ih hd) hg

/-- Further turns without an answer have tried every place. -/
theorem furtherTurns_eq_of_none (h : ∀ d, g d = none → f d = f' d) {eagerness : Eagerness}
    {bound : Nat} (hg : furtherTurns tried eagerness bound c g = none) :
    furtherTurns step eagerness bound c f = furtherTurns step eagerness bound c f' := by
  induction bound generalizing c with
  | zero => exact h c hg
  | succ bound ih =>
    have hturn : ∀ d, (if d.offset = c.offset then g d
          else furtherTurns tried eagerness bound d g) = none →
        (if d.offset = c.offset then f d else furtherTurns step eagerness bound d f) =
          if d.offset = c.offset then f' d else furtherTurns step eagerness bound d f' := by
      intro d hd
      by_cases hsame : d.offset = c.offset
      · rw [if_pos hsame] at hd ⊢
        rw [if_pos hsame, h d hd]
      · rw [if_neg hsame] at hd ⊢
        rw [if_neg hsame, ih hd]
    cases eagerness with
    | greedy =>
      obtain ⟨hmore, hend⟩ := Option.or_eq_none_iff.mp hg
      rw [furtherTurns, furtherTurns, hstep _ _ _ c hturn hmore, h c hend]
    | lazy =>
      obtain ⟨hend, hmore⟩ := Option.or_eq_none_iff.mp hg
      rw [furtherTurns, furtherTurns, hstep _ _ _ c hturn hmore, h c hend]

end Turns

namespace Pattern

/-- A search without an answer has tried every place that the pattern reaches: two others that agree
where it gave none give the same answer. -/
theorem run_eq_of_none (p : Pattern) (h : ∀ d, g d = none → f d = f' d) (hg : p.run c g = none) :
    p.run c f = p.run c f' := by
  induction p generalizing β γ f f' g c with
  | empty => exact h c hg
  | one accepts => exact bind_eq_of_none h hg
  | seq first second hfirst hsecond => exact hfirst (fun d hd => hsecond h hd) hg
  | either first second hfirst hsecond =>
    obtain ⟨hone, htwo⟩ := Option.or_eq_none_iff.mp hg
    rw [run, run, hfirst h hone, hsecond h htwo]
  | loop eagerness least extra body hbody =>
    have hstep : ∀ (k k' : Cursor → Option β) (l : Cursor → Option γ) c,
        (∀ d, l d = none → k d = k' d) → body.run c l = none → body.run c k = body.run c k' :=
      fun k k' l c hk hl => hbody hk hl
    exact turns_eq_of_none body.run body.run hstep
      (fun d hd => furtherTurns_eq_of_none body.run body.run hstep h hd) hg
  | capture index body hbody => exact hbody (fun d hd => h _ hd) hg
  | again index => exact bind_eq_of_none h hg
  | anchor place =>
    rw [run] at hg ⊢
    rw [run]
    split at hg
    · next hplace => rw [if_pos hplace, if_pos hplace, h c hg]
    · next hplace => rw [if_neg hplace, if_neg hplace]
  | notAhead body _ =>
    rw [run] at hg ⊢
    rw [run]
    cases hbody : body.run c some with
    | some d => rfl
    | none =>
      rw [hbody] at hg
      exact h c hg

/-- What follows a failed search from place to place holds of the search. -/
theorem run_eq_none (p : Pattern) (h : ∀ d, g d = none → f d = none) (hg : p.run c g = none) :
    p.run c f = none := by
  refine (run_eq_of_none p h hg).trans (Option.eq_none_iff_forall_ne_some.mpr fun b hb => ?_)
  obtain ⟨d, -, hd⟩ := p.reaches_of_run c _ b hb
  cases hd

variable {guard p q : Pattern}

/-- Patterns that agree where a third is not read have the same matches. -/
theorem findAll_eq_of_not_occursIn
    (h : ∀ c, guard.run c some = none → p.run c some = q.run c some) {cs : List Char}
    (hguard : guard.occursIn cs = false) : p.findAll cs = q.findAll cs := by
  have hpieces : ∀ (cs before : List Char) (offset skip : Nat),
      guard.findFrom? before offset cs = none →
        p.piecesFrom skip before offset cs = q.piecesFrom skip before offset cs := by
    intro cs
    induction cs with
    | nil => intro before offset skip _; cases skip <;> rfl
    | cons x rest ih =>
      intro before offset skip hnone
      obtain ⟨hhere, hlater⟩ := Option.or_eq_none_iff.mp hnone
      cases skip with
      | succ skip => exact ih _ _ skip hlater
      | zero =>
        have hmatch : p.matchAt before offset (x :: rest) =
            q.matchAt before offset (x :: rest) := by
          rw [matchAt, matchAt, h _ (Option.map_eq_none_iff.mp hhere)]
        have hrest := fun skip => ih (x :: before) (offset + 1) skip hlater
        simp only [piecesFrom, hmatch, hrest]
  rw [findAll, findAll, pieces, pieces, hpieces cs [] 0 0 (by simpa [occursIn, find?] using hguard)]

end Pattern

end Failing

namespace Classify

open Pattern Source.Export Source.Declared

/-- An asynchronous function as a hook. -/
def asyncHook : Pattern :=
  keyword ++ (text "async" ++ blanks1) ++ functionKeyword ++ capture 1 hookName

/-- A default function as a hook. -/
def defaultHook : Pattern :=
  defaultKeyword ++ functionKeyword ++ capture 1 hookName

/-- The beginning of a hook that is exported by a keyword. -/
def hookStart (declared : String) : Pattern :=
  text declared ++ blanks1 ++ text "use" ++ capital

/-- Where a hook cannot begin, it cannot be read. -/
theorem run_hook_eq_none {declared : String} {β : Type} {k : Cursor → Option β}
    (h : (hookStart declared).run c some = none) (rest : Pattern) :
    (text declared ++ blanks1 ++ capture 1 hookName ++ rest).run c k = none := by
  change (text declared ++ blanks1).run c (fun d => (text "use" ++ capital).run d some) = none at h
  refine run_eq_none (text declared ++ blanks1) (fun d hd => ?_) h
  exact run_eq_none (text "use" ++ capital) (g := some)
    (fun e he => absurd he (Option.some_ne_none e)) hd

/-- Without exported constant or plain function no hook begins. -/
theorem run_exportedHook (c : Cursor) : exportedHook.run c some = keyword.run c fun d =>
    ((hookStart "const").run d some).or ((hookStart "function").run d some) :=
  rfl

/-- In a text that exports no constants and plain functions as hooks, hooks are asynchronous
functions and the default. -/
theorem hookNames_of_not_occursIn {content : List Char}
    (h : exportedHook.occursIn content = false) :
    hookNames content = (Text.unique (captured asyncHook content ++
      captured defaultHook content)).map String.ofList := by
  have hfunction : captured (exportedFunction ++ capture 1 hookName) content =
      captured asyncHook content := by
    refine congrArg (List.map _) (findAll_eq_of_not_occursIn (fun c hc => ?_) h)
    rw [run_exportedHook] at hc
    refine run_eq_of_none keyword (fun d hd => ?_) hc
    have hplain : (functionKeyword ++ capture 1 hookName).run d some = none :=
      run_hook_eq_none (Option.or_eq_none_iff.mp hd).2 .empty
    change optionalAsync.run d (fun e => (functionKeyword ++ capture 1 hookName).run e some) = _
    rw [optionalAsync, run_optional, hplain, Option.or_none]
    rfl
  have hconst : captured (exportedConst ++ capture 1 hookName ++ assigned) content = [] := by
    have hsame : captured (exportedConst ++ capture 1 hookName ++ assigned) content =
        captured exportedHook content := by
      refine congrArg (List.map _) (findAll_eq_of_not_occursIn (fun c hc => ?_) h)
      rw [hc]
      rw [run_exportedHook] at hc
      change keyword.run c (fun d =>
        (text "const" ++ blanks1 ++ capture 1 hookName ++ assigned).run d some) = none
      exact run_eq_none keyword
        (fun d hd => run_hook_eq_none (Option.or_eq_none_iff.mp hd).1 assigned) hc
    have hnone : exportedHook.findAll content = [] := by
      rw [← head?_eq_none_iff, ← find?_eq_head?]
      simpa [occursIn] using h
    rw [hsame, captured, hnone, map_nil]
  rw [hookNames, hookForms, flatMap_cons, flatMap_cons, flatMap_singleton,
    hfunction, hconst, nil_append]
  rfl

/-- A utility's file is readable, and exports no such hook. -/
theorem of_utility? {facts : FactTable} {file : Path} {u : Utility}
    (h : utility? facts file = some u) : ∃ fact, facts.fact? file = some fact ∧
      u.filePath = file.toString ∧ exportedHook.occursIn fact.content = false := by
  have hpath := filePath_utility facts file u (Option.mem_toList.mpr h)
  unfold utility? at h
  cases hfact : facts.fact? file with
  | none =>
    rw [hfact] at h
    cases h
  | some fact =>
    refine ⟨fact, rfl, hpath, ?_⟩
    rw [hfact] at h
    cases hhook : exportedHook.occursIn fact.content with
    | false => rfl
    | true => simp [hhook] at h

end Classify

/-- Facts that were loaded come from the texts of their files. -/
theorem FactTable.of_fact?_load {tree : Tree} {schedule : Schedule} (hcomplete : schedule.Complete)
    {files : List Path} {file : Path} {fact : Source.Fact}
    (h : (load tree schedule [] files).fact? file = some fact) :
    tree.readText? file = some fact.content := by
  rw [fact?_load tree schedule hcomplete] at h
  change (if file ∈ files then extract? tree file else none) = some fact at h
  split at h
  · obtain ⟨content, hcontent, rfl⟩ := Option.map_eq_some_iff.mp h
    exact hcontent
  · cases h

open Classify Pattern Source.Declared in
/-- A utility's hooks are its asynchronous and default functions so named. -/
theorem utility_hooks [Host] (p : Project) (schedule : Schedule) (hcomplete : schedule.Complete)
    (framework : Framework) (router : Router) (c : Catalog)
    (h : Catalog.build p schedule framework router = .ok c) (u : Utility) (hu : u ∈ c.utilities) :
    ∃ file content, u.filePath = file.toString ∧ p.tree.readText? file = some content ∧
      hookNames content = (Text.unique (captured asyncHook content ++
        captured defaultHook content)).map String.ofList ∧ (hookNames content = [] ↔
        asyncHook.occursIn content = false ∧ defaultHook.occursIn content = false) := by
  obtain ⟨pages, -, rfl⟩ := Catalog.build_eq_ok h
  have hmem := (List.mergeSort_perm _ _).mem_iff.mp hu
  rw [Assignment.assign, Assignment.map_snd_qualify] at hmem
  obtain ⟨file, -, hfile⟩ := List.mem_flatMap.mp hmem
  obtain ⟨fact, hfact, hpath, hnone⟩ := of_utility? (Option.mem_toList.mp hfile)
  have hnames := hookNames_of_not_occursIn hnone
  refine ⟨file, fact.content, hpath, FactTable.of_fact?_load hcomplete hfact, hnames, ?_⟩
  have hoccurs (q : Pattern) : captured q fact.content = [] ↔ q.occursIn fact.content = false := by
    rw [captured, List.map_eq_nil_iff, ← List.head?_eq_none_iff, ← find?_eq_head?]
    simp [occursIn]
  rw [hnames, ← hoccurs, ← hoccurs, List.map_eq_nil_iff, ← List.append_eq_nil_iff,
    List.eq_nil_iff_forall_not_mem, List.eq_nil_iff_forall_not_mem]
  simp only [mem_unique]

/-- The text of a file that exports a hook as an asynchronous function. -/
def loungeText : List Char :=
  "export async function useA() \x7b\x7d\n".toList

/-- A project that consists of the file. -/
def loungeProject : Project where
  tree := { files := [(["lounge", "utils", "a.ts"], (String.ofList loungeText).toUTF8.toList)]
            directories := [] }
  root := ⟨.slash, ["lounge"]⟩
  ignored := []

/-- The facts of the lounge project. -/
def loungeFacts : FactTable :=
  FactTable.load loungeProject.tree (.inOrder 1) []
    (Catalog.neededFiles loungeProject loungeProject.filePages)

/-- The catalog of the project. -/
def loungeCatalog : Catalog :=
  Catalog.ofFacts loungeProject loungeProject.filePages loungeFacts .react .nextjsPages

/-- Its only utility. -/
def loungeUtility : Utility where
  name := "a"
  filePath := "/lounge/utils/a.ts"
  fileName := "a.ts"
  exports := ["useA"]

/-- The file counts as a utility. -/
theorem loungeUtility_mem : loungeUtility ∈ loungeCatalog.utilities := by
  have hfree : Candidates.components loungeProject = [] ∧ Candidates.hooks loungeProject = [] ∧
      Candidates.contexts loungeProject = [] := by decide +kernel
  have hfiles : Candidates.utilities loungeProject = [.ofString "/lounge/utils/a.ts"] := by
    decide +kernel
  have htext : loungeProject.tree.readText? (.ofString "/lounge/utils/a.ts") = some loungeText := by
    decide +kernel
  have hfact : loungeFacts.fact? (.ofString "/lounge/utils/a.ts") =
      some (.ofContent loungeText) := by
    rw [loungeFacts, FactTable.fact?_load _ _ fun n => List.Perm.refl _,
      if_pos (by simp [Catalog.neededFiles, hfiles]), FactTable.extract?, htext]
    rfl
  have hutility : Classify.utility? loungeFacts (.ofString "/lounge/utils/a.ts") =
      some loungeUtility := by
    unfold Classify.utility?
    rw [hfact]
    rfl
  refine (mergeSort_perm _ _).mem_iff.mpr ?_
  rw [Assignment.assign, Assignment.map_snd_qualify]
  simp [hfree, hfiles, hutility, Assignment.qualify]

attribute [local instance] Host.usual

open Classify Pattern Source.Declared in
/-- The statement at the lounge project. -/
theorem utility_hooks_loungeProject : (Schedule.inOrder 1).Complete ∧
    Catalog.build loungeProject (.inOrder 1) .react .nextjsPages = .ok loungeCatalog ∧
    loungeUtility ∈ loungeCatalog.utilities ∧ ∃ file content, "/lounge/utils/a.ts" = file.toString ∧
      loungeProject.tree.readText? file = some content ∧ (hookNames content = [] ↔
        asyncHook.occursIn content = false ∧ defaultHook.occursIn content = false) := by
  obtain ⟨file, content, hfile, hcontent, -, hnames⟩ := utility_hooks loungeProject (.inOrder 1)
    (fun n => List.Perm.refl _) .react .nextjsPages loungeCatalog rfl loungeUtility
    loungeUtility_mem
  exact ⟨fun n => List.Perm.refl _, rfl, loungeUtility_mem, file, content, hfile, hcontent, hnames⟩

/-- The project's utility exports a hook. -/
theorem loungeUtility_exports_hook :
    Catalog.build loungeProject (.inOrder 1) .react .nextjsPages = .ok loungeCatalog ∧
    loungeUtility ∈ loungeCatalog.utilities ∧
    loungeProject.tree.readText? (.ofString loungeUtility.filePath) = some loungeText ∧
    Source.Declared.hookNames loungeText = ["useA"] :=
  ⟨rfl, loungeUtility_mem, by decide +kernel, by decide +kernel⟩

end SiteAtlas
