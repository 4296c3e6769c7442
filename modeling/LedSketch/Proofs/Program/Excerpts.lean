import LedSketch.Proofs.Fault.Excerpts
import LedSketch.Proofs.Grammar.Pointing
import LedSketch.Proofs.Program.EntryPoints

/-!
# Reports of sources that are not compiled

An error of compiling that has a place points to a character of the source: a broken rule to a part
of the tree, an unfit entry point to the declaration of the function. So its report has an excerpt.
The error counts line feeds and the excerpt counts all line ends, so the line that is marked is the
one with the error as long as the lines up to there are plain.

* `SketchError.Points`: an error points to a character of a source, if it has a place.
* `Tree.Violates.points`, `points_of_checkEntryPoint`: the two reasons for such an error.
* `points_of_compile`: a source is refused with an error that points into it.
* `report_of_compile`: what the report of this error shows.
* `not_marks_formFeed`: a line that is not plain, and a report that marks another line.
-/

namespace LedSketch

open Grammar Report Text
open HostText (Setting)

variable {source : String} {t u v : Tree} {p q : Setting} {e : SketchError} {f : Fault}

/-- **An error without active calls that points to a character of a source**, if it has a place. -/
structure SketchError.Points (source : List Char) (e : SketchError) : Prop where
  stack : e.stack = none
  place : ∀ place, e.place = some place →
    ∃ c : Cursor, c.Stands source ∧ place = ⟨some (c.line : Int), some (c.col : Int)⟩

/-- An error without a place points nowhere. -/
theorem SketchError.points_of_no_place {chars : List Char} (hstack : e.stack = none)
    (hplace : e.place = none) : e.Points chars := by
  refine ⟨hstack, fun place h => ?_⟩
  rw [hplace] at h
  cases h

/-! ## Broken rules -/

namespace Tree

theorem Below.part (h : Below p t q u) : Part t u := by
  induction h with
  | refl p t => exact .refl t
  | step hplace _ ih =>
    obtain ⟨cs, hcs, hmem⟩ := mem_of_places hplace
    exact .step hcs hmem ih

theorem targets_of_pointed {tag : String} (h : t.tag = .ok tag) (hmem : tag ∈ pointed) :
    t ∈ t.targets := by
  cases t with
  | leaf m =>
    cases h
    rw [targets, if_pos hmem]
    exact List.mem_singleton_self _
  | node m ts =>
    cases h
    rw [targets, if_pos hmem]
    exact List.mem_singleton_self _
  | foreign d _ => exact List.mem_singleton_self _

/-- A broken rule is about a target of the tree that breaks it. -/
theorem Breaks.mem_targets {c : Complaint} (h : u.Breaks q c v) : v ∈ u.targets := by
  have node {m : Mark} {ts : List Tree} {tag : String} (hm : m.tag = tag) (htag : tag ∉ pointed) :
      (node m ts).targets =
        if tag = "unary" then ts.take 1
        else if tag = "postfix" ∨ tag = "var-decl" then ts.drop 1
        else if tag = "assignment" then (ts.drop 1).flatMap firstChild
        else [] := by
    rw [targets, hm, if_neg htag]
  cases h with
  | await hm => simp [node hm (by decide)]
  | returnStmt ht => exact targets_of_pointed ht (by decide)
  | jump ht hw =>
    refine targets_of_pointed ht ?_
    simp only [List.mem_cons, List.not_mem_nil, or_false] at hw
    rcases hw with rfl | rfl <;> decide
  | assign hm => simp [node hm (by decide), firstChild]
  | countBefore hm => simp [node hm (by decide)]
  | countBehind hm => simp [node hm (by decide)]
  | constant hm _ hd => simpa [node hm (by decide)] using hd

/-- **An error about a broken rule points into the source.** -/
theorem Violates.points (ht : t.Points source.toList) (h : t.Violates p e) :
    e.Points source.toList := by
  obtain ⟨q, u, complaint, v, hbelow, hbreaks, line, col, hpos, rfl⟩ := h
  refine ⟨rfl, fun place hplace => ?_⟩
  obtain ⟨c, hc, hposition⟩ := ht u hbelow.part v hbreaks.mem_targets
  cases hposition.symm.trans hpos
  exact ⟨c, hc, (Option.some.inj hplace).symm⟩

end Tree

/-! ## Entry points -/

/-- A node of which the location, if it declares a function, is that of a character. -/
def Node.Declared (source : List Char) : Node → Prop
  | .functionDecl loc _ _ _ _ => ∃ c : Cursor, c.Stands source ∧ loc = some ⟨c.line, c.col⟩
  | _ => True

theorem Elab.yields_declared (ht : t.Stands source.toList) {n : Nat} {cs : List Tree} :
    Yields (Node.Declared source.toList) (functionDecl n (locOf t) cs) := by
  obtain ⟨c, hc, hposition⟩ := ht
  have hloc : locOf t = some ⟨c.line, c.col⟩ := by rw [locOf, hposition]
  cases n with
  | zero => exact yields_throw _
  | succ n =>
    rw [functionDecl]
    refine Yields.behind fun _ => Yields.behind fun _ => ?_
    dsimp only
    split
    · exact yields_throw _
    · exact yields_throw _
    · exact Yields.behind fun _ => Yields.behind fun _ => Yields.behind fun _ =>
        Yields.pure ⟨c, hc, hloc⟩

/-- The functions of a source are declared at characters of it. -/
theorem declared_of_parse {n : Node} (ht : parse source = .ok t) (hn : t.elaborate = .ok n) :
    ∀ s ∈ n.statements, s.Declared source.toList := by
  have hpoints := points_of_parse ht
  obtain ⟨c, d, ts, -, rfl⟩ := parse_phrases ht
  have yields (u : Tree) (hu : u ∈ ts) (fuel : Nat) :
      Elab.Yields (Node.Declared source.toList) (elaborateWithin fuel u) := by
    refine Elab.yields_statement (statements_of_parse ht u hu) (fun m hm => ?_)
      fun n cs htag _ => ?_
    · cases m <;> first | exact trivial | cases hm
    · have hmem := Tree.targets_of_pointed htag (by decide)
      exact Elab.yields_declared (hpoints u (.step rfl hu (.refl u)) u hmem)
  intro s hs
  obtain ⟨_, -, h⟩ :=
    statement_of_elaborate (Q := fun _ => Node.Declared source.toList) rfl yields hn s hs
  exact h

/-- **An error about an entry point points into the source.** -/
theorem points_of_checkEntryPoint {statements : List Node} {name : String}
    (h : ∀ s ∈ statements, s.Declared source.toList)
    (hcheck : Compiled.checkEntryPoint (declaredFunctions statements) name = .error (.sketch e)) :
    e.Points source.toList := by
  unfold Compiled.checkEntryPoint at hcheck
  split at hcheck
  · cases hcheck
    exact SketchError.points_of_no_place rfl rfl
  · rename_i f hf
    obtain ⟨_, _, heq, -⟩ := List.lookup_eq_some_iff.mp hf
    have hmem : (name, f) ∈ declaredFunctions statements := by simp [heq]
    obtain ⟨body, hbody⟩ := exists_declaration hmem
    obtain ⟨c, hc, hloc⟩ := h _ hbody
    have points {complaint : Complaint} : SketchError.Points source.toList
        { complaint, place := f.loc.map Loc.place } := by
      refine ⟨rfl, fun place hplace => ⟨c, hc, ?_⟩⟩
      rw [show f.loc = _ from hloc] at hplace
      exact (Option.some.inj hplace).symm
    dsimp only at hcheck
    split_ifs at hcheck
    · cases hcheck
      exact points
    · cases hcheck
      exact points

/-! ## Compiling -/

/-- **A source that the grammar takes is refused with an error that points into it**, if it has a
place. -/
theorem points_of_compile (ht : parse source = .ok t) (h : compile source = .error (.sketch e)) :
    e.Points source.toList := by
  have hread : readHostForm source = t.elaborate := by
    unfold readHostForm
    rw [ht]
  cases hn : t.elaborate with
  | error f =>
    rw [compile, hread, hn] at h
    cases Except.error.inj h
    have haccounts := elaborate_parsed ht
    rw [hn] at haccounts
    exact Tree.Violates.points (points_of_parse ht) haccounts
  | ok n =>
    obtain heq | ⟨name, hcheck⟩ := compile_of_read (hread.trans hn) h
    · cases Fault.sketch.inj heq
      exact SketchError.points_of_no_place rfl rfl
    · exact points_of_checkEntryPoint (declared_of_parse ht hn) hcheck

/-- How a source is refused can be decided without the program that it might be. -/
theorem compile_eq_error (h : (compile source).map (fun _ => ()) = .error f) :
    compile source = .error f := by
  cases hc : compile source with
  | error f' =>
    rw [hc] at h
    exact congrArg Except.error (Except.error.inj h)
  | ok p => rw [hc] at h; cases h

/-! ## Reports -/

/-- **The report of an error of compiling** that has a place. Its line and its column are those of
a character of the source, if this is cut at line feeds. The excerpt has one row that is marked, with
a caret below it under the column, and it shows the line of this number that an excerpt counts. This
is the same line, without the carriage return at its end, if the lines up to there are plain. -/
theorem report_of_compile {place : Place} (ht : parse source = .ok t)
    (h : compile source = .error (.sketch e)) (hplace : e.place = some place) (st : Store)
    (calls : List Frame) : ∃ (i j : Nat) (l : List Char) (x : Char) (shown : String),
      place = ⟨some (i + 1 : Nat), some (j + 1 : Nat)⟩ ∧
      (source.toList.splitOn '\n')[i]? = some l ∧ l[j]? = some x ∧
      (Fault.sketch e).report st (some source) calls =
        .ok (heading (.sketch e) (i + 1) (j + 1) ++ "\n" ++
          excerpt source (i + 1 : Nat) (some (j + 1 : Nat)) radius) ∧
      (splitLines source)[i]? = some shown ∧
      Marks (Decimal.intText (i + 1 : Nat)).toList shown.toList (j + 1)
        ((excerpt source (i + 1 : Nat) (some (j + 1 : Nat)) radius).toList.splitOn '\n') ∧
      ((∀ m ∈ (source.toList.splitOn '\n').take (i + 1), Plain m) →
        shown.toList = chomp l ∧ shown.toList[j]? = some x) := by
  obtain ⟨hstack, hpoints⟩ := points_of_compile ht h
  obtain ⟨c, hc, rfl⟩ := hpoints place hplace
  obtain ⟨i, j, l, x, hrow, hcol, hline, hx, hend⟩ := hc.line
  rw [hrow, hcol] at hplace ⊢
  have hne : l ≠ [] := by
    rintro rfl
    cases hx
  have hlt : i < (splitLinesFrom [] source.toList).length := lt_length_splitLinesFrom hline hne
  have hget : (splitLines source)[i]? =
      some (String.ofList (splitLinesFrom [] source.toList)[i]) := by
    rw [splitLines, List.getElem?_map, List.getElem?_eq_getElem hlt]
    rfl
  have hmarks := marks_excerpt (Nat.succ_pos i) hget (j + 1) 2
  refine ⟨i, j, l, x, _, rfl, hline, hx, report_placed hstack hplace hmarks.ne_empty st calls,
    hget, hmarks, fun hplain => ?_⟩
  have hshown : (splitLinesFrom [] source.toList)[i] = chomp l := by
    have hsame := getElem?_splitLinesFrom hline hne hplain
    rw [List.getElem?_eq_getElem hlt] at hsame
    exact Option.some.inj hsame
  rw [String.toList_ofList, hshown]
  exact ⟨rfl, getElem?_chomp hx hend⟩

/-- A jump outside of every loop, behind a line with a carriage return. -/
theorem report_of_compile_jump :
    let source := "let x;\r\nbreak;\r\n"
    let e : SketchError := { complaint := .illegalJump "break", place := some ⟨some 2, some 1⟩ }
    ∃ t, parse source = .ok t ∧ compile source = .error (.sketch e) ∧
      (∀ l ∈ (source.toList.splitOn '\n').take 2, Plain l) ∧
      (source.toList.splitOn '\n')[1]? = some "break;\r".toList ∧
      (Fault.sketch e).report {} (some source) [] =
        .ok (heading (.sketch e) 2 1 ++ "\n" ++ excerpt source 2 (some 1) radius) ∧
      Marks (Decimal.intText 2).toList "break;".toList 1
        ((excerpt source 2 (some 1) radius).toList.splitOn '\n') := by
  intro source e
  have herror : compile source = .error (.sketch e) := compile_eq_error (by decide +kernel)
  have hlines : source.toList.splitOn '\n' = ["let x;\r".toList, "break;\r".toList, []] := by
    decide +kernel
  have hplain : ∀ l ∈ (source.toList.splitOn '\n').take 2, Plain l := by
    rw [hlines]
    decide
  have hok : (parse source).isOk = true := by decide +kernel
  obtain ⟨t, ht⟩ := exists_parse hok
  obtain ⟨i, j, line, x, shown, hat, hline, -, hreport, -, hmarks, hsame⟩ :=
    report_of_compile ht herror rfl {} []
  simp only [Place.mk.injEq, Option.some.injEq] at hat
  obtain rfl : i = 1 := by omega
  obtain rfl : j = 0 := by omega
  have hbreak : (source.toList.splitOn '\n')[1]? = some "break;\r".toList := by
    rw [hlines]
    rfl
  obtain rfl : line = "break;\r".toList := Option.some.inj (hline.symm.trans hbreak)
  have hshown : shown.toList = "break;".toList := (hsame hplain).1
  rw [hshown] at hmarks
  exact ⟨t, ht, herror, hplain, hbreak, hreport, hmarks⟩

/-- **A report that marks another line**: a form feed ends a line of the excerpt, and is part of a
line if line feeds are counted. -/
theorem not_marks_formFeed :
    let source := "// a\x0cb\nreturn;"
    let e : SketchError := { complaint := .illegalReturn, place := some ⟨some 2, some 1⟩ }
    let rows := (excerpt source 2 (some 1) radius).toList.splitOn '\n'
    (parse source).isOk = true ∧ compile source = .error (.sketch e) ∧
      (source.toList.splitOn '\n')[1]? = some "return;".toList ∧
      (Fault.sketch e).report {} (some source) [] =
        .ok (heading (.sketch e) 2 1 ++ "\n" ++ excerpt source 2 (some 1) radius) ∧
      Marks "2".toList "b".toList 1 rows ∧ ¬ Marks "2".toList "return;".toList 1 rows := by
  intro source e rows
  have hrows : rows =
      ["  1 | // a".toList, "> 2 | b".toList, "    | ^".toList, "  3 | return;".toList] := by
    decide +kernel
  refine ⟨by decide +kernel, compile_eq_error (by decide +kernel), by decide +kernel,
    report_placed rfl rfl (by decide +kernel) _ _, ?_⟩
  clear_value rows
  subst hrows
  refine ⟨.intro ["  1 | // a".toList] ["  3 | return;".toList] 1 (by decide) (by decide),
    fun h => ?_⟩
  obtain ⟨row, hrow, hmark, hshown⟩ := h.exists_row
  revert row
  decide

end LedSketch
