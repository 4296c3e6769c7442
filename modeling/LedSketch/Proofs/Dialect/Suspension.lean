import LedSketch.Proofs.Dialect.Heeding
import LedSketch.Proofs.Grammar.Sources
import LedSketch.Proofs.Syntax.Refusal

/-!
# Inserted awaits are legal

The pass writes an `await` where it holds the innermost function for async. The grammar takes that
function for async too, unless one of two things makes the pass and the grammar see different
functions: an end of statement that passes by the end of a comment, or a member named `async` that
stands directly in front of `function`.

* `lawful_toHostForm`: where neither happens, every `await` of the host form is legal.
* `misplaced_toHostForm`: what comes of the one and of the other.
-/

namespace LedSketch.Dialect

open Text Scan Grammar

/-- The pass and the reader of its host form start in step. -/
theorem inStep_start (source cs : List Char) : InStep {} (readerOf source) cs :=
  ⟨⟨.refl _, ⟨rfl, .nil, rfl, nofun⟩, rfl⟩, nofun, nofun⟩

/-- **Every `await` that the pass writes stands in an async function** of the host form, and no
program is refused for one. -/
theorem lawful_toHostForm {source : String} {t : Tree}
    (hawait : ⟨.code, "await".toList⟩ ∉ scan source.toList)
    (hparse : parse (toHostForm source) = .ok t)
    (hproper : ∀ x ∈ lexemes (toHostForm source).toList, x.Proper)
    (hmisled : ¬ (readerOf (toHostForm source).toList).Misled (toHostForm source).toList) :
    t.Lawful ∧ ∀ f, t.elaborate = .error f → ¬ f.isAwait := by
  obtain ⟨d, m, ts, -, rfl, hm, hpasses⟩ := passes_source hparse
  have htrusty := trusty_run {} source.toList _ (inStep_start (toHostForm source).toList _) hawait
  have hlegal : ∀ t ∈ ts, t.Legal false := by
    rcases hpasses with ⟨r, -, -, -, hlegal⟩ | ⟨us, x, vs, -, -, hsplit, hx, -⟩
    · refine hlegal ?_
      rw [toHostForm, String.toList_ofList] at hmisled htrusty ⊢
      exact htrusty.resolve_left hmisled
    · refine absurd (hproper x ?_) hx
      rw [hsplit]
      simp
  exact ⟨⟨hm, hlegal⟩, fun f => not_isAwait_of_legal hm hlegal⟩

theorem not_misled_of_lexemes {source : List Char}
    (h : ∀ x ∈ lexemes source, x.rule ≠ .memberAccess) : ¬ (readerOf source).Misled source := by
  refine Reader.not_misled (fun n => List.any_eq_false.mpr fun x hx hmember => ?_)
    (show Lead.other ≠ .member by decide) source
  exact h x hx (of_decide_eq_true hmember).1

/-- A pause in an entry point. -/
theorem lawful_pause :
    ∃ t, parse (toHostForm "void loop() \x7b delay(5); \x7d") = .ok t ∧ t.Lawful := by
  have hhost : toHostForm "void loop() \x7b delay(5); \x7d" =
      "async function loop() \x7b await delay(5); \x7d" := by decide +kernel
  have hok : (parse (toHostForm "void loop() \x7b delay(5); \x7d")).isOk = true := by
    rw [hhost]
    decide +kernel
  have hlexemes : ∀ x ∈ lexemes (toHostForm "void loop() \x7b delay(5); \x7d").toList,
      x.Proper ∧ x.rule ≠ .memberAccess := by
    rw [hhost]
    decide +kernel
  obtain ⟨t, ht⟩ := exists_parse hok
  exact ⟨t, ht, (lawful_toHostForm (by decide +kernel) ht (fun x hx => (hlexemes x hx).1)
    (not_misled_of_lexemes fun x hx => (hlexemes x hx).2)).1⟩

/-- The failure of a source that the grammar takes. -/
def failure? (source : String) : Option Fault :=
  match parse source with
  | .ok t => match t.elaborate with
    | .ok _ => none
    | .error f => some f
  | .error _ => none

theorem exists_failure {source : String} (h : (failure? source).any (·.isAwait) = true) :
    ∃ t f, parse source = .ok t ∧ t.elaborate = .error f ∧ f.isAwait := by
  unfold failure? at h
  split at h
  · rename_i t ht
    split at h
    · cases h
    · rename_i f hf
      exact ⟨t, f, ht, hf, of_decide_eq_true h⟩
  · cases h

/-- **The pass misplaces an `await`** behind a member named `async`, and behind a comment end that
the grammar passes by. -/
theorem misplaced_toHostForm :
    (⟨.code, "await".toList⟩ ∉ scan "x.async\nfunction foo() \x7b delay(1); \x7d".toList ∧
      ∃ t f, parse (toHostForm "x.async\nfunction foo() \x7b delay(1); \x7d") = .ok t ∧
        t.elaborate = .error f ∧ f.isAwait) ∧
    ⟨.code, "await".toList⟩ ∉ scan
        "async function foo() \x7b x /* a */ \x7b */; \x7d delay(1);".toList ∧
      ∃ t f, parse (toHostForm "async function foo() \x7b x /* a */ \x7b */; \x7d delay(1);") =
          .ok t ∧ t.elaborate = .error f ∧ f.isAwait := by
  have member : toHostForm "x.async\nfunction foo() \x7b delay(1); \x7d" =
      "x.async\nfunction foo() \x7b await delay(1); \x7d" := by decide +kernel
  have passed : toHostForm "async function foo() \x7b x /* a */ \x7b */; \x7d delay(1);" =
      "async function foo() \x7b x /* a */ \x7b */; \x7d await delay(1);" := by decide +kernel
  rw [member, passed]
  exact ⟨⟨by decide +kernel, exists_failure (by decide +kernel)⟩,
    by decide +kernel, exists_failure (by decide +kernel)⟩

end LedSketch.Dialect
