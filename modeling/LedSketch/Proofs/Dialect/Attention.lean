import LedSketch.Proofs.Dialect.Minding
import LedSketch.Proofs.Grammar.Minded
import LedSketch.Proofs.Grammar.Sources
import LedSketch.Proofs.Syntax.Attendance

/-!
# No pause is left behind

The pass writes an `await` in front of a call of `delay` where it holds the innermost function for
async, unless the token in front of the call keeps it from that. The grammar sees that function and
that token too, unless one of three things makes the two differ: an `async` in front of a type, which
the pass forgets; a member with the name of a word that means something; and an end of statement that
passes by the end of a comment.

* `HasPause`: a program has a call of `delay` in some role.
* `awaited_toHostForm`: where none of the three happens, every such call is what an `await` waits for
  or the start of it.
* `unattended_toHostForm`: what comes of the first and of the second, and of a call that goes on.
-/

namespace LedSketch.Dialect

open Text Scan Grammar

/-- A text of the host form is a program that has a pause in the role `r`. -/
def HasPause (host : String) (r : Role) : Prop :=
  ∃ t n, parse host = .ok t ∧ t.elaborate = .ok n ∧ n.PausesAs (Paused host.toList) r

/-- The pass and the reader of its host form start in tune. -/
theorem inTune_start (source cs : List Char) : InTune {} (readerOf source) .other cs :=
  ⟨.refl _, ⟨rfl, .nil, rfl, nofun⟩, rfl, nofun, nofun, rfl⟩

/-- **No pause is left behind** in an async function and outside of templates. -/
theorem awaited_toHostForm {source : String} {r : Role}
    (hclear : Clear none (scan source.toList) = true)
    (hlexemes : ∀ x ∈ lexemes (toHostForm source).toList,
      x.Proper ∧ (x.rule = .memberAccess → String.ofList x.text ∉ boundWords))
    (h : HasPause (toHostForm source) r) : r = .operand ∨ r = .head := by
  obtain ⟨t, n, hparse, helaborate, hpause⟩ := h
  obtain ⟨d, hrun, -⟩ := parse_eq_ok hparse
  have htiled := tiles _ .program .program _ le_rfl _ _ _ hrun
  have hcovers : Covers .empty {} := ⟨Frame.sound_empty, by rintro ⟨⟩, fun _ => rfl⟩
  obtain ⟨m, ts, ht, hm, hminded⟩ := walk_minded_program (toHostForm source).toList _
    hcovers rfl .program _ le_rfl _ _ _ hrun
  obtain ⟨rfl, -⟩ := List.cons.inj ht
  have hminds : Minds .other (readerOf (toHostForm source).toList) (toHostForm source).toList := by
    have := minds_run {} source.toList _ .other none (inTune_start (toHostForm source).toList _)
      (by rintro ⟨⟩) hclear
    rwa [toHostForm, String.toList_ofList] at this ⊢
  have hstart : Clean .empty (· = none) .other (readerOf (toHostForm source).toList)
      (toHostForm source).toList := ⟨rfl, ⟨rfl, rfl, rfl, rfl, by rintro ⟨⟩⟩, Or.inl rfl, by rintro ⟨⟩⟩
  obtain ⟨-, -, -, -, -, hattended⟩ := hminded _ _ hstart ⟨0, (Cursor.advance_zero _).symm⟩ hminds
    fun x hx => ⟨htiled.told rfl x hx, (hlexemes x hx).1, (hlexemes x hx).2⟩
  have htree : (Tree.node m ts).Attended (Paused (toHostForm source).toList) {} :=
    Tree.attended_node (by rw [hm]; decide) hattended
  have := (attended_of_elaborate htree helaborate).ne_other hpause
  cases r with
  | other => exact absurd rfl this
  | operand => exact Or.inl rfl
  | head => exact Or.inr rfl

/-- Whether such a pause is found at `l`. -/
def findsPause (host : String) (l : Loc) (r : Role) : Bool :=
  match parse host with
  | .ok t => match t.elaborate with
    | .ok n => (n.within 9 {}).any fun x =>
      x.2.pause? = some l ∧ x.1.inAsync = true ∧ x.1.inTemplate = false ∧ x.1.role = r
    | .error _ => false
  | .error _ => false

theorem hasPause_of_finds {host : String} {l : Loc} {r : Role} (h : findsPause host l r = true)
    (hl : Paused host.toList l) : HasPause host r := by
  unfold findsPause at h
  split at h
  · rename_i t ht
    split at h
    · rename_i n hn
      obtain ⟨x, hx, hfound⟩ := List.any_eq_true.mp h
      obtain ⟨hpause, hasync, htemplate, hrole⟩ := of_decide_eq_true hfound
      exact ⟨t, n, ht, hn, x.1, x.2, Node.reaches_of_within hx, ⟨l, hpause, hl⟩, hasync, htemplate,
        hrole⟩
    · cases h
  · cases h

/-- A pause in an entry point. -/
theorem awaited_pause : HasPause (toHostForm "void loop() \x7b delay(5); \x7d") .operand ∧
    (Role.operand = .operand ∨ Role.operand = .head) := by
  have hhost : toHostForm "void loop() \x7b delay(5); \x7d" =
      "async function loop() \x7b await delay(5); \x7d" := by decide +kernel
  have h : HasPause (toHostForm "void loop() \x7b delay(5); \x7d") .operand := by
    rw [hhost]
    exact hasPause_of_finds (l := ⟨1, 36⟩) (by decide +kernel)
      ⟨"async function loop() \x7b await ".toList, "(5); \x7d".toList, by decide +kernel,
        by decide +kernel, by decide +kernel⟩
  refine ⟨h, awaited_toHostForm (by decide +kernel) ?_ h⟩
  rw [hhost]
  decide +kernel

/-- **The pass leaves pauses behind**: in an async function with a type in front of its name, and
behind a member named `await`. And where a call is the start of a chain, it waits for the chain. -/
theorem unattended_toHostForm :
    HasPause (toHostForm "async int f() \x7b delay(1); \x7d") .other ∧
    HasPause (toHostForm "void setup() \x7b x.await\ndelay(1); \x7d") .other ∧
    HasPause (toHostForm "void setup() \x7b delay(1).x; \x7d") .head := by
  have prefixed : toHostForm "async int f() \x7b delay(1); \x7d" =
      "async function f() \x7b delay(1); \x7d" := by decide +kernel
  have member : toHostForm "void setup() \x7b x.await\ndelay(1); \x7d" =
      "async function setup() \x7b x.await\ndelay(1); \x7d" := by decide +kernel
  have chained : toHostForm "void setup() \x7b delay(1).x; \x7d" =
      "async function setup() \x7b await delay(1).x; \x7d" := by decide +kernel
  rw [prefixed, member, chained]
  refine ⟨hasPause_of_finds (l := ⟨1, 27⟩) (by decide +kernel) ?_,
    hasPause_of_finds (l := ⟨2, 6⟩) (by decide +kernel) ?_,
    hasPause_of_finds (l := ⟨1, 37⟩) (by decide +kernel) ?_⟩
  · exact ⟨"async function f() \x7b ".toList, "(1); \x7d".toList, by decide +kernel,
      by decide +kernel, by decide +kernel⟩
  · exact ⟨"async function setup() \x7b x.await\n".toList, "(1); \x7d".toList, by decide +kernel,
      by decide +kernel, by decide +kernel⟩
  · exact ⟨"async function setup() \x7b await ".toList, "(1).x; \x7d".toList, by decide +kernel,
      by decide +kernel, by decide +kernel⟩

end LedSketch.Dialect
