import Mathlib.Data.List.Infix
import SchemaPilot.Changelogs
import SchemaPilot.Occurrences
import SchemaPilot.SchemaDiffJoin

namespace SchemaPilot.ChangelogText

open Keyed JsonText PyRepr SchemaInfer SchemaHash SchemaDiff SchemaDiffJoin Changelogs
open Fetcher (isIn)

/-- A text without backticks. -/
def Plain (text : String) : Prop := backtick ∉ text.toList

instance (text : String) : Decidable (Plain text) := inferInstanceAs (Decidable (backtick ∉ text.toList))

section Reading

/-- A text that leaves no match open, and what is found in it. -/
def Reads (text : List Char) (found : List String) : Prop :=
  ∀ rest, findBackticked none (text ++ rest) = found ++ findBackticked none rest

theorem reads_plain {text : List Char} (h : backtick ∉ text) : Reads text [] := by
  intro rest
  induction text with
  | nil => rfl
  | cons ch text ih =>
    obtain ⟨hch, htext⟩ := List.ne_and_not_mem_of_not_mem_cons h
    rw [List.cons_append, findBackticked, if_neg hch.symm]
    exact ih htext

theorem find_open {c : Char} {cs text : List Char} (h : backtick ∉ text) (rest : List Char) :
    findBackticked (some (c :: cs)) (text ++ backtick :: rest) =
      String.ofList (c :: cs ++ text) :: findBackticked none rest := by
  induction text generalizing cs with
  | nil => simp [findBackticked]
  | cons ch text ih =>
    obtain ⟨hch, htext⟩ := List.ne_and_not_mem_of_not_mem_cons h
    rw [List.cons_append, findBackticked, if_neg hch.symm, List.cons_append, ih htext]
    simp

theorem reads_quoted {path : String} (hne : path ≠ "") (h : Plain path) :
    Reads (backtick :: path.toList ++ [backtick]) [path] := by
  intro rest
  obtain ⟨c, cs, hcs⟩ := List.exists_cons_of_ne_nil (l := path.toList) (by simpa using hne)
  rw [Plain, hcs] at h
  obtain ⟨hc, htext⟩ := List.ne_and_not_mem_of_not_mem_cons h
  have hpath : String.ofList (c :: cs) = path := by rw [← hcs, String.ofList_toList]
  rw [hcs, List.append_assoc, List.cons_append, findBackticked, if_pos rfl, List.cons_append, findBackticked,
    if_neg hc.symm, List.singleton_append, find_open htext, List.singleton_append, hpath]
  rfl

theorem Reads.append {text text' : List Char} {found found' : List String} (h : Reads text found)
    (h' : Reads text' found') : Reads (text ++ text') (found ++ found') := by
  intro rest
  rw [List.append_assoc, h, h', List.append_assoc]

theorem reads_lines {lines : List (String × List String)} (h : ∀ p ∈ lines, Reads p.1.toList p.2) :
    Reads ("\n".intercalate (lines.map Prod.fst)).toList (lines.flatMap Prod.snd) := by
  induction lines with
  | nil => exact reads_plain (List.not_mem_nil)
  | cons p lines ih =>
    obtain ⟨hp, hlines⟩ := List.forall_mem_cons.mp h
    cases lines with
    | nil => simpa using hp
    | cons q lines =>
      have hbreak : Reads "\n".toList [] := reads_plain (by decide)
      have hrest := (hp.append hbreak).append (ih hlines)
      rw [List.append_nil] at hrest
      rw [List.map_cons, List.map_cons, String.intercalate_cons_cons, String.toList_append, String.toList_append,
        List.flatMap_cons]
      exact hrest

end Reading

section Template

def heading (sev : Severity) (count : Nat) : String := s!"## {title sev} ({count})"

def line (d : Diff) : String := s!"- `{d.path}` — {d.message}"

/-- The lines of one severity, each with the paths that stand in it. -/
def sectionLines (diffs : List Diff) (sev : Severity) : List (String × List String) :=
  match diffs.filter (fun d => d.severity = sev) with
  | [] => []
  | d :: ds => (heading sev (d :: ds).length, []) :: (d :: ds).map (fun d => (line d, [d.path]))

theorem map_sectionLines (diffs : List Diff) (sev : Severity) :
    (sectionLines diffs sev).map Prod.fst = severitySection diffs sev := by
  rw [sectionLines, severitySection]
  cases diffs.filter (fun d => d.severity = sev) with
  | nil => rfl
  | cons d ds =>
    simp only [List.map_cons, List.map_map]
    rfl

theorem flatMap_sectionLines (diffs : List Diff) (sev : Severity) :
    (sectionLines diffs sev).flatMap Prod.snd = (diffs.filter (fun d => d.severity = sev)).map Diff.path := by
  rw [sectionLines]
  cases diffs.filter (fun d => d.severity = sev) with
  | nil => rfl
  | cons d ds => simp [List.flatMap_map, ← List.map_eq_flatMap]

theorem plain_append_iff (s t : String) : Plain (s ++ t) ↔ Plain s ∧ Plain t := by
  rw [Plain, String.toList_append, List.mem_append, not_or]
  rfl

theorem plain_heading (sev : Severity) (count : Nat) : Plain (heading sev count) := by
  have hcount : Plain (toString count) := by
    intro hmem
    have hdigits : backtick ∈ Nat.toDigits 10 count := by simpa using hmem
    exact absurd (Nat.isDigit_of_mem_toDigits (by decide) (by decide) hdigits) (by decide)
  have htitle : Plain (title sev) := by cases sev <;> decide
  have hline : heading sev count = "## " ++ title sev ++ " (" ++ toString count ++ ")" := rfl
  rw [hline]
  simp only [plain_append_iff, htitle, hcount, and_true]
  decide

theorem reads_line {d : Diff} (hne : d.path ≠ "") (hpath : Plain d.path) (hmessage : Plain d.message) :
    Reads (line d).toList [d.path] := by
  have hline : (line d).toList =
      "- ".toList ++ (backtick :: d.path.toList ++ [backtick]) ++ (" — ".toList ++ d.message.toList) := by
    have hstart : "- `".toList = "- ".toList ++ [backtick] := by decide
    have hend : "` — ".toList = backtick :: " — ".toList := by decide
    have hparts : line d = "- `" ++ d.path ++ "` — " ++ d.message := rfl
    rw [hparts, String.toList_append, String.toList_append, String.toList_append, hstart, hend]
    simp
  have hbefore : Reads "- ".toList [] := reads_plain (by decide)
  have hafter : Reads (" — ".toList ++ d.message.toList) [] := by
    refine (reads_plain ?_ : Reads " — ".toList []).append (reads_plain hmessage)
    decide
  rw [hline]
  exact (hbefore.append (reads_quoted hne hpath)).append hafter

end Template

section Messages

variable (isPrintable : Char → Bool)

theorem hexDigit_ne_backtick (n : Nat) : hexDigit (n % 16) ≠ backtick := by
  have hall : ∀ m < 16, hexDigit m ≠ backtick := by decide
  exact hall _ (Nat.mod_lt n (by decide))

theorem backtick_not_mem_hex4 (n : Nat) : backtick ∉ hex4 n := by
  simp only [hex4, List.mem_cons, List.not_mem_nil, or_false, not_or]
  exact ⟨(hexDigit_ne_backtick _).symm, (hexDigit_ne_backtick _).symm, (hexDigit_ne_backtick _).symm,
    (hexDigit_ne_backtick n).symm⟩

theorem backtick_not_mem_reprChar {quote c : Char} (hc : backtick ≠ c) :
    backtick ∉ reprChar isPrintable quote c := by
  have hescape : ∀ cs : List Char, backtick ∉ cs → backtick ∉ '\\' :: cs :=
    fun cs hcs => List.not_mem_cons_of_ne_of_not_mem (by decide) hcs
  have hself : backtick ∉ [c] := fun h => hc (List.mem_singleton.mp h)
  rw [reprChar]
  split_ifs
  · exact hescape _ hself
  · decide
  · decide
  · decide
  · exact hself
  · exact hself
  · refine hescape _ (List.not_mem_cons_of_ne_of_not_mem (by decide) fun h => ?_)
    exact backtick_not_mem_hex4 _ (List.mem_of_mem_drop h)
  · exact hescape _ (List.not_mem_cons_of_ne_of_not_mem (by decide) (backtick_not_mem_hex4 _))
  · refine hescape _ (List.not_mem_cons_of_ne_of_not_mem (by decide) fun h => ?_)
    exact (List.mem_append.mp h).elim (backtick_not_mem_hex4 _) (backtick_not_mem_hex4 _)

theorem backtick_not_mem_reprStr {s : String} (h : Plain s) : backtick ∉ reprStr isPrintable s := by
  have hbody : ∀ quote, backtick ∉ s.toList.flatMap (reprChar isPrintable quote) := by
    intro quote hmem
    obtain ⟨c, hc, hmem⟩ := List.mem_flatMap.mp hmem
    exact backtick_not_mem_reprChar isPrintable (fun heq => h (heq ▸ hc)) hmem
  have hquoted : ∀ quote, backtick ≠ quote →
      backtick ∉ quote :: s.toList.flatMap (reprChar isPrintable quote) ++ [quote] := by
    intro quote hquote hmem
    obtain hmem | hmem := List.mem_append.mp hmem
    · exact (List.mem_cons.mp hmem).elim hquote (hbody quote)
    · exact hquote (List.mem_singleton.mp hmem)
  unfold PyRepr.reprStr
  dsimp only
  split
  · exact hquoted '"' (by decide)
  · exact hquoted _ (by decide)

theorem plain_strOfList {xs : List String} (h : ∀ s ∈ xs, Plain s) : Plain (strOfList isPrintable xs) := by
  have hitems : backtick ∉ reprItems isPrintable (xs.map .str) := by
    induction xs with
    | nil => exact (by decide : backtick ∉ [']'])
    | cons s xs ih =>
      obtain ⟨hs, hxs⟩ := List.forall_mem_cons.mp h
      have hrepr := backtick_not_mem_reprStr isPrintable hs
      cases xs with
      | nil =>
        intro hmem
        obtain hmem | hmem := List.mem_append.mp hmem
        · exact hrepr hmem
        · exact absurd hmem (by decide)
      | cons u xs =>
        intro hmem
        obtain hmem | hmem := List.mem_append.mp hmem
        · obtain hmem | hmem := List.mem_append.mp hmem
          · exact hrepr hmem
          · exact absurd hmem (by decide)
        · exact ih hxs hmem
  change backtick ∉ (String.ofList ('[' :: reprItems isPrintable (xs.map .str))).toList
  rw [String.toList_ofList]
  exact List.not_mem_cons_of_ne_of_not_mem (by decide) hitems

theorem plain_strOpt {t : Option String} (h : ∀ s ∈ t, Plain s) : Plain (strOpt t) := by
  cases t with
  | none => decide
  | some s => exact h s rfl

/-- What the arguments of a message say. -/
structure PlainArgs (kwargs : MsgArgs) : Prop where
  oldType : ∀ t ∈ kwargs.oldType, Plain t
  newType : ∀ t ∈ kwargs.newType, Plain t
  added : ∀ s ∈ kwargs.added, Plain s
  removed : ∀ s ∈ kwargs.removed, Plain s

theorem plain_msg (changeType : ChangeType) {path : String} (hpath : Plain path) {kwargs : MsgArgs}
    (h : PlainArgs kwargs) : Plain (msg isPrintable changeType path kwargs) := by
  have hold := plain_strOpt h.oldType
  have hnew := plain_strOpt h.newType
  have hsorted : ∀ xs, (∀ s ∈ xs, Plain s) → Plain (strOfList isPrintable (sortedStrings xs)) :=
    fun xs hxs => plain_strOfList isPrintable fun s hs => hxs s ((mem_sortedStrings xs s).mp hs)
  have hadded := hsorted _ h.added
  have hremoved := hsorted _ h.removed
  unfold msg
  cases changeType <;> simp only [plain_append_iff, hpath, hold, hnew, hadded, hremoved, and_true] <;>
    decide +kernel

end Messages

section Changelog

/-- A body whose paths and enum values have no backticks, and no path is empty. -/
def PlainBody (v : Json) : Prop :=
  ∀ n ∈ inferSchema v, n.path ≠ "" ∧ Plain n.path ∧ ∀ values ∈ n.enumValues, ∀ s ∈ values, Plain s

variable {isPrintable : Char → Bool} {v w : Json}

theorem plain_text (t : JsonType) : Plain t.text := by cases t <;> decide

theorem plain_arrayItemType {n : SchemaNode} (hn : n ∈ inferSchema v) : ∀ t ∈ n.arrayItemType, Plain t := by
  obtain ⟨s, rfl, -, hs⟩ := Occurrences.summary_of_mem hn
  intro t ht
  obtain ⟨type, -, rfl⟩ := Option.map_eq_some_iff.mp (hs.item.symm.trans ht)
  exact plain_text type

theorem plain_msgArgs (changeType : ChangeType) {m n : SchemaNode} (hv : PlainBody v) (hw : PlainBody w)
    (hm : m ∈ inferSchema v) (hn : n ∈ inferSchema w) : PlainArgs (msgArgs changeType m n) := by
  have henum : ∀ {u : Json} {k : SchemaNode}, PlainBody u → k ∈ inferSchema u → ∀ s ∈ k.enumValues.getD [],
      Plain s := by
    intro u k hu hk s hs
    cases he : k.enumValues with
    | none =>
      rw [he] at hs
      cases hs
    | some values =>
      rw [he] at hs
      exact (hu k hk).2.2 values he s hs
  have hadded : ∀ s ∈ setMinus n.enumValues m.enumValues, Plain s :=
    fun s hs => henum hw hn s (List.mem_of_mem_filter (List.mem_dedup.mp hs))
  have hremoved : ∀ s ∈ setMinus m.enumValues n.enumValues, Plain s :=
    fun s hs => henum hv hm s (List.mem_of_mem_filter (List.mem_dedup.mp hs))
  have htypes : PlainArgs { oldType := some m.type.text, newType := some n.type.text } :=
    ⟨fun t ht => Option.some.inj ht ▸ plain_text _, fun t ht => Option.some.inj ht ▸ plain_text _,
      List.forall_mem_nil _, List.forall_mem_nil _⟩
  cases changeType with
  | enum_expanded => exact ⟨htypes.oldType, htypes.newType, hadded, List.forall_mem_nil _⟩
  | enum_narrowed => exact ⟨htypes.oldType, htypes.newType, List.forall_mem_nil _, hremoved⟩
  | enum_changed => exact ⟨htypes.oldType, htypes.newType, hadded, hremoved⟩
  | array_item_type_changed =>
    exact ⟨plain_arrayItemType hm, plain_arrayItemType hn, List.forall_mem_nil _, List.forall_mem_nil _⟩
  | _ => exact htypes

/-- The diffs of such bodies can be quoted. -/
theorem plain_of_mem_diffSchemas (hv : PlainBody v) (hw : PlainBody w) {d : Diff}
    (hd : d ∈ diffSchemas isPrintable (inferSchema v) (inferSchema w)) :
    d.path ≠ "" ∧ Plain d.path ∧ Plain d.message := by
  have hnone : PlainArgs {} := ⟨nofun, nofun, List.forall_mem_nil _, List.forall_mem_nil _⟩
  have hat := (mem_diffSchemas isPrintable _ _ d).mp hd
  rw [diffAt] at hat
  cases ho : (byPath (inferSchema v)).lookup d.path with
  | none =>
    cases hn : (byPath (inferSchema w)).lookup d.path with
    | none =>
      rw [ho, hn] at hat
      cases hat
    | some n =>
      obtain ⟨hmem, hpath⟩ := lookup_byPath_inferSchema hn
      obtain ⟨hne, hplain, -⟩ := hw n hmem
      rw [ho, hn] at hat
      rw [hpath] at hne hplain
      refine ⟨hne, hplain, ?_⟩
      rw [← Option.some.inj hat]
      exact plain_msg isPrintable _ hplain hnone
  | some m =>
    obtain ⟨hm, hmpath⟩ := lookup_byPath_inferSchema ho
    obtain ⟨hne, hplain, -⟩ := hv m hm
    rw [hmpath] at hne hplain
    refine ⟨hne, hplain, ?_⟩
    cases hn : (byPath (inferSchema w)).lookup d.path with
    | none =>
      rw [ho, hn] at hat
      rw [← Option.some.inj hat]
      exact plain_msg isPrintable _ hplain hnone
    | some n =>
      rw [ho, hn] at hat
      obtain ⟨change, -, hd⟩ := Option.map_eq_some_iff.mp hat
      rw [← hd]
      exact plain_msg isPrintable _ hplain (plain_msgArgs change hv hw hm (lookup_byPath_inferSchema hn).1)

/-- The paths of a template changelog in its order: breaking, risky, safe. -/
def pathsBySeverity (diffs : List Diff) : List String :=
  [.breaking, .risky, .safe].flatMap fun sev => (diffs.filter (fun d => d.severity = sev)).map Diff.path

theorem reads_template {diffs : List Diff} (h : ∀ d ∈ diffs, d.path ≠ "" ∧ Plain d.path ∧ Plain d.message) :
    Reads (templateChangelog diffs).toList (pathsBySeverity diffs) := by
  have hlines : ∀ p ∈ [Severity.breaking, .risky, .safe].flatMap (sectionLines diffs), Reads p.1.toList p.2 := by
    intro p hp
    obtain ⟨sev, -, hp⟩ := List.mem_flatMap.mp hp
    have hin : ∀ d ∈ diffs.filter (fun d => d.severity = sev), d ∈ diffs := fun d => List.mem_of_mem_filter
    rw [sectionLines] at hp
    split at hp
    · cases hp
    · next d ds heq =>
      obtain rfl | hp := List.mem_cons.mp hp
      · exact reads_plain (plain_heading sev _)
      · obtain ⟨e, he, rfl⟩ := List.mem_map.mp hp
        obtain ⟨hne, hpath, hmessage⟩ := h e (hin e (heq ▸ he))
        exact reads_line hne hpath hmessage
  have hread := reads_lines hlines
  rw [List.map_flatMap, List.flatMap_assoc] at hread
  simp only [map_sectionLines, flatMap_sectionLines] at hread
  exact hread

theorem isIn_intercalate {sub l : String} {lines : List String} (hl : l ∈ lines) (h : sub.toList <:+: l.toList) :
    sub.toList <:+: ("\n".intercalate lines).toList := by
  induction lines with
  | nil => cases hl
  | cons l' lines ih =>
    cases lines with
    | nil =>
      rw [String.intercalate_singleton, ← List.mem_singleton.mp hl]
      exact h
    | cons l'' lines =>
      rw [String.intercalate_cons_cons, String.toList_append, String.toList_append]
      obtain rfl | hl := List.mem_cons.mp hl
      · exact (h.trans (List.infix_append' [] _ _)).trans (List.infix_append' [] _ _)
      · exact (ih hl).trans (List.suffix_append _ _).isInfix

theorem heading_mem_template {diffs : List Diff} (hne : diffs ≠ []) : isIn "##" (templateChangelog diffs) = true := by
  obtain ⟨d, hd⟩ := List.exists_mem_of_ne_nil _ hne
  have hmem : d ∈ diffs.filter (fun e => e.severity = d.severity) := List.mem_filter.mpr ⟨hd, decide_eq_true rfl⟩
  obtain ⟨count, hcount⟩ : ∃ count, heading d.severity count ∈ severitySection diffs d.severity := by
    rw [severitySection]
    split
    · next heq =>
      rw [heq] at hmem
      cases hmem
    · exact ⟨_, List.mem_cons_self⟩
  have hstart : "##".toList <:+: (heading d.severity count).toList := by
    have hline : heading d.severity count = "## " ++ title d.severity ++ " (" ++ toString count ++ ")" := rfl
    rw [hline]
    simp only [String.toList_append, List.append_assoc]
    exact (by decide : "##".toList <:+: "## ".toList).trans (List.prefix_append _ _).isInfix
  refine decide_eq_true (isIn_intercalate (List.mem_flatMap.mpr ⟨d.severity, ?_, hcount⟩) hstart)
  cases d.severity <;> decide

/-- The template changelog reads back: what the validator finds in it are the reported paths, the
most severe first. So where there are diffs, it keeps the rules that a text of the language model is
held to, but for the length. -/
theorem template_reads_back (isPrintable : Char → Bool) (diffs : List Diff)
    (h : ∀ d ∈ diffs, ∃ v w, PlainBody v ∧ PlainBody w ∧
      d ∈ diffSchemas isPrintable (inferSchema v) (inferSchema w)) :
    findBackticked none (templateChangelog diffs).toList = pathsBySeverity diffs ∧
      (diffs ≠ [] → validateLlmOutput (templateChangelog diffs) diffs =
        decide ((templateChangelog diffs).length ≤ 4000)) := by
  have hread : findBackticked none (templateChangelog diffs).toList = pathsBySeverity diffs := by
    have hreads := reads_template fun d hd => by
      obtain ⟨v, w, hv, hw, hd⟩ := h d hd
      exact plain_of_mem_diffSchemas hv hw hd
    have hend := hreads []
    rwa [List.append_nil, findBackticked, List.append_nil] at hend
  refine ⟨hread, fun hne => ?_⟩
  have hheading := heading_mem_template hne
  have hnonempty : templateChangelog diffs ≠ "" := by
    intro hnil
    rw [hnil] at hheading
    exact absurd hheading (by decide)
  have hknown : ∀ fp ∈ pathsBySeverity diffs, fp ∈ diffs.map Diff.path := by
    intro fp hfp
    obtain ⟨sev, -, hfp⟩ := List.mem_flatMap.mp hfp
    obtain ⟨d, hd, rfl⟩ := List.mem_map.mp hfp
    exact List.mem_map_of_mem (List.mem_of_mem_filter hd)
  have hall : (pathsBySeverity diffs).all (fun fp =>
      !(isIn "." fp || isIn "[" fp) || decide (fp ∈ diffs.map Diff.path)) = true := by
    rw [List.all_eq_true]
    intro fp hfp
    rw [decide_eq_true (hknown fp hfp), Bool.or_true]
  by_cases hlong : 4000 < (templateChangelog diffs).length
  · rw [validateLlmOutput, if_pos (.inr hlong), decide_eq_false (Nat.not_le.mpr hlong)]
  · rw [validateLlmOutput, if_neg (not_or.mpr ⟨hnonempty, hlong⟩), if_pos hheading, hread, hall,
      decide_eq_true (Nat.not_lt.mp hlong)]

theorem template_reads_back_email :
    let v : Json := .obj [("id", .num (.int 1)), ("status", .str "open")]
    let w : Json := .obj [("email", .null), ("id", .str "x1"), ("status", .str "closed")]
    let diffs := diffSchemas (fun _ => true) (inferSchema v) (inferSchema w)
    findBackticked none (templateChangelog diffs).toList = ["id", "status", "email"] ∧
      validateLlmOutput (templateChangelog diffs) diffs = true := by
  intro v w diffs
  have hv : PlainBody v := by
    unfold PlainBody
    decide +kernel
  have hw : PlainBody w := by
    unfold PlainBody
    decide +kernel
  obtain ⟨hread, hvalid⟩ := template_reads_back (fun _ => true) diffs fun d hd => ⟨v, w, hv, hw, hd⟩
  have hpaths : pathsBySeverity diffs = ["id", "status", "email"] := by decide +kernel
  refine ⟨hread.trans hpaths, (hvalid ?_).trans ?_⟩
  · intro hnil
    rw [hnil] at hpaths
    cases hpaths
  · apply decide_eq_true
    -- joined as lists of characters, the lines are cheap to measure
    rw [← String.length_toList, templateChangelog, String.toList_intercalate]
    decide +kernel

end Changelog

end SchemaPilot.ChangelogText
