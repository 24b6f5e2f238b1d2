import SchemaPilot.JsonReader
import SchemaPilot.JsonText

namespace SchemaPilot.JsonLoads

open PrefixCode JsonText JsonReader

section Reader

/-- The constants that `json.loads` takes where a value begins, beyond what `JSON.parse` takes. -/
def startConstant (stack : List Frame) (c : Char) : Option Config :=
  if c = 'N' then some (.literal "aN".toList (.number "NaN".toList), stack)
  else if c = 'I' then some (.literal "nfinity".toList (.number "Infinity".toList), stack)
  else none

def constantStep : Config → Char → Option Config
  | (.value, stack), c => startConstant stack c
  | (.firstItem, stack), c => startConstant (.array [] :: stack) c
  | (.numeral .sign _, stack), c =>
    if c = 'I' then some (.literal "nfinity".toList (.number "-Infinity".toList), stack) else none
  | _, _ => none

def readStep (cfg : Config) (c : Char) : Option Config := (step cfg c).or (constantStep cfg c)

/-- The characters of a string. An unpaired surrogate, which no text of `json.dumps` leaves,
has none of its own. -/
def decodeUnits : Units → List Char
  | [] => []
  | [u] => [Char.ofNat u.toNat]
  | hi :: lo :: units =>
    if 0xd800 ≤ hi ∧ hi < 0xdc00 ∧ 0xdc00 ≤ lo ∧ lo < 0xe000 then
      Char.ofNat (0x10000 + (hi.toNat - 0xd800) * 1024 + (lo.toNat - 0xdc00)) :: decodeUnits units
    else Char.ofNat hi.toNat :: decodeUnits (lo :: units)

def stringOf (units : Units) : String := String.ofList (decodeUnits units)

def intOf : List Char → Int
  | '-' :: digits => -(Nat.ofDigitChars 10 digits 0)
  | digits => Nat.ofDigitChars 10 digits 0

/-- `float` of a numeral is a parameter: nothing is computed with it. -/
def numberOf (floatOf : List Char → PyFloat) (numeral : List Char) : Number :=
  if numeral.all (fun c => c.isDigit || c = '-') then .int (intOf numeral) else .float (floatOf numeral)

section

variable (floatOf : List Char → PyFloat)

mutual

def toJson : Value → Json
  | .null => .null
  | .bool b => .bool b
  | .number numeral => .num (numberOf floatOf numeral)
  | .string s => .str (stringOf s)
  | .array items => .arr (toJsonItems items)
  | .object members => .obj (toJsonMembers members)

def toJsonItems : List Value → List Json
  | [] => []
  | v :: items => toJson v :: toJsonItems items

def toJsonMembers : List (Units × Value) → List (String × Json)
  | [] => []
  | (key, v) :: members => (stringOf key, toJson v) :: toJsonMembers members

end

/-- `json.loads` of a text; `none` is a `JSONDecodeError`. -/
def loads (text : List Char) : Option Json :=
  ((text.foldlM readStep (.value, [])).bind finish).map (toJson floatOf)

end

end Reader

section Brackets

inductive Mode where
  | outside | inside | escaped
  deriving DecidableEq

/-- Whether a text stands within a string, and how many brackets are open around it. -/
def scanStep : Mode × Nat → Char → Mode × Nat
  | (.outside, depth), c =>
    if c = '"' then (.inside, depth)
    else if c = '{' ∨ c = '[' then (.outside, depth + 1)
    else if c = '}' ∨ c = ']' then (.outside, depth - 1)
    else (.outside, depth)
  | (.inside, depth), c =>
    if c = '"' then (.outside, depth) else if c = '\\' then (.escaped, depth) else (.inside, depth)
  | (.escaped, depth), _ => (.inside, depth)

def scan (at_ : Mode × Nat) (text : List Char) : Mode × Nat := text.foldl scanStep at_

/-- A character that opens or closes nothing outside strings. -/
def flat (c : Char) : Bool := c ∉ ['"', '{', '[', '}', ']']

theorem scanStep_flat {c : Char} (h : flat c) (depth : Nat) :
    scanStep (.outside, depth) c = (.outside, depth) := by
  simp only [flat, List.mem_cons, List.not_mem_nil, or_false, not_or, decide_eq_true_eq] at h
  obtain ⟨h1, h2, h3, h4, h5⟩ := h
  simp [scanStep, h1, h2, h3, h4, h5]

def Place.depth : Place → Nat
  | .value => 0
  | .name _ => 1

/-- Where the reader takes itself to stand. -/
def position : Config → Mode × Nat
  | (.value, stack) | (.done _, stack) | (.literal _ _, stack) | (.numeral _ _, stack) => (.outside, stack.length)
  | (.firstItem, stack) | (.firstName, stack) | (.nextName _, stack) | (.colon _ _, stack) =>
    (.outside, stack.length + 1)
  | (.string place _, stack) | (.unicode place _ _ _, stack) => (.inside, stack.length + Place.depth place)
  | (.escape place _, stack) => (.escaped, stack.length + Place.depth place)

/-- What is left of a literal opens or closes nothing. -/
def LiteralFlat : Config → Prop
  | (.literal rest _, _) => ∀ c ∈ rest, flat c
  | _ => True

/-- The reader takes a character as the count of brackets does. -/
def Follows (cfg : Config) (c : Char) (cfg' : Config) : Prop :=
  position cfg' = scanStep (position cfg) c ∧ LiteralFlat cfg'

theorem flat_of_isSpace {c : Char} (h : isSpace c) : flat c := by
  simp only [isSpace, Bool.or_eq_true, beq_iff_eq] at h
  obtain ((rfl | rfl) | rfl) | rfl := h <;> decide

theorem flat_of_isDigit {c : Char} (h : c.isDigit) : flat c := by
  have hne : ∀ k : Char, k.isDigit = false → c ≠ k := by
    rintro k hk rfl
    rw [h] at hk
    cases hk
  simp [flat, hne]

theorem flat_of_next {p p' : Part} {c : Char} (h : p.next c = some p') : flat c := by
  apply decide_eq_true
  intro hc
  simp only [List.mem_cons, List.not_mem_nil, or_false] at hc
  -- no numeral goes on with a quote or a bracket
  obtain rfl | rfl | rfl | rfl | rfl := hc <;> cases p <;> cases h

theorem flat_literal (text : String) (h : text ∈ ["rue", "alse", "ull", "aN", "nfinity"]) :
    ∀ c ∈ text.toList, flat c := by
  have hall : ["rue", "alse", "ull", "aN", "nfinity"].all (fun t => t.toList.all flat) := by decide
  exact List.all_eq_true.mp (List.all_eq_true.mp hall text h)

theorem follows_startValue {stack : List Frame} {c : Char} {cfg : Config}
    (h : startValue stack c = some cfg) :
    position cfg = scanStep (.outside, stack.length) c ∧ LiteralFlat cfg := by
  unfold startValue at h
  obtain ⟨rfl, h⟩ | ⟨-, h⟩ := ite_eq_iff.mp h
  · cases h
    exact ⟨rfl, trivial⟩
  obtain ⟨rfl, h⟩ | ⟨-, h⟩ := ite_eq_iff.mp h
  · cases h
    exact ⟨rfl, trivial⟩
  obtain ⟨rfl, h⟩ | ⟨-, h⟩ := ite_eq_iff.mp h
  · cases h
    exact ⟨rfl, trivial⟩
  obtain ⟨rfl, h⟩ | ⟨-, h⟩ := ite_eq_iff.mp h
  · cases h
    exact ⟨rfl, flat_literal "rue" (by decide)⟩
  obtain ⟨rfl, h⟩ | ⟨-, h⟩ := ite_eq_iff.mp h
  · cases h
    exact ⟨rfl, flat_literal "alse" (by decide)⟩
  obtain ⟨rfl, h⟩ | ⟨-, h⟩ := ite_eq_iff.mp h
  · cases h
    exact ⟨rfl, flat_literal "ull" (by decide)⟩
  obtain ⟨rfl, h⟩ | ⟨-, h⟩ := ite_eq_iff.mp h
  · cases h
    exact ⟨rfl, trivial⟩
  obtain ⟨rfl, h⟩ | ⟨-, h⟩ := ite_eq_iff.mp h
  · cases h
    exact ⟨rfl, trivial⟩
  obtain ⟨hdigit, h⟩ | ⟨-, h⟩ := ite_eq_iff.mp h
  · cases h
    exact ⟨(scanStep_flat (flat_of_isDigit hdigit) _).symm, trivial⟩
  · cases h

theorem follows_startConstant {stack : List Frame} {c : Char} {cfg : Config}
    (h : startConstant stack c = some cfg) :
    position cfg = scanStep (.outside, stack.length) c ∧ LiteralFlat cfg := by
  unfold startConstant at h
  split_ifs at h with h1 h2 <;> cases h
  · subst h1
    exact ⟨rfl, flat_literal "aN" (by decide)⟩
  · subst h2
    exact ⟨rfl, flat_literal "nfinity" (by decide)⟩

theorem follows_afterValue {v : Value} {stack : List Frame} {c : Char} {cfg : Config}
    (h : afterValue v stack c = some cfg) :
    position cfg = scanStep (.outside, stack.length) c ∧ LiteralFlat cfg := by
  unfold afterValue at h
  split at h
  · next hspace =>
    cases h
    exact ⟨(scanStep_flat (flat_of_isSpace hspace) _).symm, trivial⟩
  · split at h
    · cases h
    · split_ifs at h with h1 h2 <;> cases h <;> subst_vars <;> exact ⟨rfl, trivial⟩
    · split_ifs at h with h1 h2 <;> cases h <;> subst_vars <;> exact ⟨rfl, trivial⟩

theorem follows_constantStep {cfg cfg' : Config} {c : Char} (h : constantStep cfg c = some cfg') :
    Follows cfg c cfg' := by
  unfold constantStep at h
  split at h
  · exact follows_startConstant h
  · exact follows_startConstant h
  · split_ifs at h with hc
    cases h
    subst hc
    exact ⟨rfl, flat_literal "nfinity" (by decide)⟩
  · cases h

theorem ne_of_unhex {c : Char} {d : Nat} (h : unhex c = some d) : c ≠ '"' ∧ c ≠ '\\' := by
  constructor <;>
  · rintro rfl
    cases h

theorem follows_step {cfg cfg' : Config} {c : Char} (hlit : LiteralFlat cfg)
    (h : step cfg c = some cfg') :
    Follows cfg c cfg' := by
  obtain ⟨control, stack⟩ := cfg
  have hspaces : ∀ (depth : Nat), isSpace c → (Mode.outside, depth) = scanStep (.outside, depth) c :=
    fun depth hs => (scanStep_flat (flat_of_isSpace hs) depth).symm
  cases control with
  | value =>
    simp only [step] at h
    split at h
    · next hs =>
      cases h
      exact ⟨hspaces _ hs, trivial⟩
    · exact follows_startValue h
  | firstItem =>
    simp only [step] at h
    split_ifs at h with hs hc
    · cases h
      exact ⟨hspaces _ hs, trivial⟩
    · cases h
      subst hc
      exact ⟨rfl, trivial⟩
    · exact follows_startValue h
  | firstName =>
    simp only [step] at h
    split_ifs at h with hs hc hq <;> cases h
    · exact ⟨hspaces _ hs, trivial⟩
    · subst hc
      exact ⟨rfl, trivial⟩
    · subst hq
      exact ⟨rfl, trivial⟩
  | nextName members =>
    simp only [step] at h
    split_ifs at h with hs hq <;> cases h
    · exact ⟨hspaces _ hs, trivial⟩
    · subst hq
      exact ⟨rfl, trivial⟩
  | colon members key =>
    simp only [step] at h
    split_ifs at h with hs hc <;> cases h
    · exact ⟨hspaces _ hs, trivial⟩
    · subst hc
      exact ⟨rfl, trivial⟩
  | done v => exact follows_afterValue h
  | literal rest v =>
    simp only [step] at h
    split at h
    · next hc =>
      cases h
      obtain ⟨t, rfl⟩ := List.head?_eq_some_iff.mp hc
      have hflat : ∀ x ∈ c :: t, flat x := hlit
      have hstep := scanStep_flat (hflat c List.mem_cons_self) stack.length
      rw [List.tail_cons]
      split
      · exact ⟨hstep.symm, trivial⟩
      · exact ⟨hstep.symm, fun x hx => hflat x (List.mem_cons_of_mem _ hx)⟩
    · cases h
  | numeral part read =>
    simp only [step] at h
    split at h
    · next hp =>
      cases h
      exact ⟨(scanStep_flat (flat_of_next hp) _).symm, trivial⟩
    · split_ifs at h
      exact follows_afterValue h
  | string place read =>
    simp only [step] at h
    split_ifs at h with hq hb hctrl <;> cases h
    · subst hq
      cases place <;> exact ⟨rfl, trivial⟩
    · subst hb
      exact ⟨rfl, trivial⟩
    · exact ⟨by simp [position, scanStep, hq, hb], trivial⟩
  | escape place read =>
    simp only [step] at h
    split_ifs at h with hu
    · cases h
      exact ⟨rfl, trivial⟩
    · obtain ⟨u, -, rfl⟩ := Option.map_eq_some_iff.mp h
      exact ⟨rfl, trivial⟩
  | unicode place read missing unit =>
    simp only [step] at h
    obtain ⟨d, hd, rfl⟩ := Option.map_eq_some_iff.mp h
    obtain ⟨hq, hb⟩ := ne_of_unhex hd
    split <;> exact ⟨by simp [position, scanStep, hq, hb], trivial⟩

theorem follows_readStep {cfg cfg' : Config} {c : Char} (hlit : LiteralFlat cfg)
    (h : readStep cfg c = some cfg') : Follows cfg c cfg' := by
  rw [readStep, Option.or_eq_some_iff] at h
  obtain h | ⟨-, h⟩ := h
  · exact follows_step hlit h
  · exact follows_constantStep h

theorem position_of_run {cfg cfg' : Config} {text : List Char} (hlit : LiteralFlat cfg)
    (h : text.foldlM readStep cfg = some cfg') : position cfg' = scan (position cfg) text := by
  induction text generalizing cfg with
  | nil => rw [← Option.some.inj h, scan, List.foldl_nil]
  | cons c text ih =>
    rw [List.foldlM_cons] at h
    obtain ⟨next, hstep, hrest⟩ := Option.bind_eq_some_iff.mp h
    obtain ⟨hpos, hnext⟩ := follows_readStep hlit hstep
    rw [ih hnext hrest, hpos]
    rfl

/-- A text that is read to its end has as many brackets closed as opened. -/
theorem scan_of_loads {floatOf : List Char → PyFloat} {text : List Char} {v : Json}
    (h : loads floatOf text = some v) : scan (.outside, 0) text = (.outside, 0) := by
  obtain ⟨w, hw, -⟩ := Option.map_eq_some_iff.mp h
  obtain ⟨cfg, hrun, hfinish⟩ := Option.bind_eq_some_iff.mp hw
  have hlit : LiteralFlat (.value, []) := trivial
  have hpos := position_of_run hlit hrun
  rw [show position (.value, []) = (.outside, 0) from rfl] at hpos
  rw [← hpos]
  unfold finish at hfinish
  split at hfinish
  · rfl
  · rfl
  · cases hfinish

end Brackets

section Texts

/-- From a mode on, the text closes what it opens and nothing else. -/
def Balanced (mode : Mode) (text : List Char) : Prop :=
  ∀ depth, scan (mode, depth) text = (mode, depth) ∧ ∀ u, u <+: text → depth ≤ (scan (mode, depth) u).2

theorem scan_append (at_ : Mode × Nat) (s t : List Char) :
    scan at_ (s ++ t) = scan (scan at_ s) t :=
  List.foldl_append

theorem prefix_append_cases {u s t : List Char} (h : u <+: s ++ t) :
    u <+: s ∨ ∃ r, u = s ++ r ∧ r <+: t := by
  obtain ⟨w, hw⟩ := h
  obtain ⟨r, hr, rfl⟩ | ⟨r, rfl, hr⟩ := List.append_eq_append_iff.mp hw
  · exact .inl ⟨r, hr.symm⟩
  · exact .inr ⟨r, rfl, w, hr.symm⟩

theorem prefix_singleton {u : List Char} {c : Char} (h : u <+: [c]) : u = [] ∨ u = [c] := by
  obtain rfl | ⟨t, rfl, ht⟩ := List.prefix_cons_iff.mp h
  · exact .inl rfl
  · rw [List.prefix_nil.mp ht]
    exact .inr rfl

theorem balanced_nil (mode : Mode) : Balanced mode [] := by
  intro depth
  refine ⟨rfl, fun u hu => ?_⟩
  rw [List.prefix_nil.mp hu]
  exact le_rfl

theorem Balanced.append {mode : Mode} {s t : List Char} (hs : Balanced mode s)
    (ht : Balanced mode t) :
    Balanced mode (s ++ t) := by
  intro depth
  refine ⟨by rw [scan_append, (hs depth).1, (ht depth).1], fun u hu => ?_⟩
  obtain hu | ⟨r, rfl, hr⟩ := prefix_append_cases hu
  · exact (hs depth).2 u hu
  · rw [scan_append, (hs depth).1]
    exact (ht depth).2 r hr

theorem balanced_of_steady {mode : Mode} {text : List Char}
    (h : ∀ c ∈ text, ∀ depth, scanStep (mode, depth) c = (mode, depth)) : Balanced mode text := by
  induction text with
  | nil => exact balanced_nil mode
  | cons c text ih =>
    obtain ⟨hc, htext⟩ := List.forall_mem_cons.mp h
    refine Balanced.append (s := [c]) (fun depth => ⟨hc depth, fun u hu => ?_⟩) (ih htext)
    obtain rfl | rfl : u = [] ∨ u = [c] := prefix_singleton hu
    · exact le_rfl
    · exact (congrArg Prod.snd (hc depth)).ge

/-- Until the closing character, an enclosed text is as deep as its opening character makes it. -/
theorem enclosed_depth {mode inner : Mode} {opens closes : Char} {body : List Char} {depth k : Nat}
    (hopen : scanStep (mode, depth) opens = (inner, depth + k)) (hb : Balanced inner body)
    {u : List Char}
    (hu : u <+: opens :: (body ++ [closes])) (hne : u ≠ [])
    (hproper : u ≠ opens :: (body ++ [closes])) :
    depth + k ≤ (scan (mode, depth) u).2 := by
  obtain ⟨c, u, rfl⟩ := List.exists_cons_of_ne_nil hne
  obtain ⟨rfl, htail⟩ := List.cons_prefix_cons.mp hu
  rw [scan, List.foldl_cons, hopen]
  obtain hbody | ⟨r, rfl, hr⟩ := prefix_append_cases htail
  · exact (hb (depth + k)).2 u hbody
  · obtain rfl | rfl := prefix_singleton hr
    · rw [List.append_nil]
      exact (hb (depth + k)).2 body (List.prefix_refl body)
    · exact absurd rfl hproper

theorem balanced_enclosed {mode inner : Mode} {opens closes : Char} {k : Nat}
    (hopen : ∀ depth, scanStep (mode, depth) opens = (inner, depth + k))
    (hclose : ∀ depth, scanStep (inner, depth + k) closes = (mode, depth)) {body : List Char}
    (hb : Balanced inner body) : Balanced mode (opens :: (body ++ [closes])) := by
  intro depth
  have hend : scan (mode, depth) (opens :: (body ++ [closes])) = (mode, depth) := by
    have htail := scan_append (inner, depth + k) body [closes]
    rw [(hb (depth + k)).1] at htail
    rw [scan, List.foldl_cons, hopen]
    exact htail.trans (hclose depth)
  refine ⟨hend, fun u hu => ?_⟩
  by_cases hne : u = []
  · rw [hne]
    exact le_rfl
  · by_cases hproper : u = opens :: (body ++ [closes])
    · rw [hproper, hend]
    · exact (Nat.le_add_right depth k).trans (enclosed_depth (hopen depth) hb hu hne hproper)

theorem balanced_escape (c : Char) : Balanced .inside (escape c) := by
  have hnil : Balanced .escaped [] := balanced_nil _
  have hpair : ∀ e : Char, Balanced .inside ['\\', e] :=
    fun e => balanced_enclosed (k := 0) (fun _ => rfl) (fun _ => rfl) hnil
  have hsteady : ∀ text : List Char, (∀ x ∈ text, x ≠ '"' ∧ x ≠ '\\') → Balanced .inside text := by
    intro text h
    apply balanced_of_steady
    intro x hx depth
    simp [scanStep, h x hx]
  have hhex : ∀ n, Balanced .inside (hex4 n) := by
    intro n
    have hdigit : ∀ m < 16, hexDigit m ≠ '"' ∧ hexDigit m ≠ '\\' := by decide
    apply hsteady
    simp [hex4, hdigit, Nat.mod_lt]
  have hunicode : ∀ n, Balanced .inside ('\\' :: 'u' :: hex4 n) := fun n => (hpair 'u').append (hhex n)
  rw [escape]
  cases h : shortEscapes.lookup c with
  | some e => exact hpair e
  | none =>
    dsimp only
    split
    · apply hsteady
      rw [List.forall_mem_singleton]
      constructor <;>
      · rintro rfl
        simp [shortEscapes] at h
    · rw [unicodeEscape]
      split
      · exact hunicode _
      · exact (hunicode _).append (hunicode _)

theorem balanced_quote (s : String) : Balanced .outside (quote s) := by
  have hbody : ∀ cs : List Char, ∃ body, terminated '"' escape cs = body ++ ['"'] ∧ Balanced .inside body := by
    intro cs
    induction cs with
    | nil => exact ⟨[], rfl, balanced_nil _⟩
    | cons c cs ih =>
      obtain ⟨body, hbody, hb⟩ := ih
      exact ⟨escape c ++ body, by rw [terminated, hbody, List.append_assoc], (balanced_escape c).append hb⟩
  obtain ⟨body, hbody, hb⟩ := hbody s.toList
  rw [quote, hbody]
  exact balanced_enclosed (k := 0) (fun _ => rfl) (fun _ => rfl) hb

theorem balanced_joined {α : Type} {enc : α → List Char} (closes : Char) {xs : List α}
    (h : ∀ x ∈ xs, Balanced .outside (enc x)) :
    ∃ body, joined ',' closes enc xs = body ++ [closes] ∧ Balanced .outside body := by
  induction xs using joined.induct with
  | case1 => exact ⟨[], rfl, balanced_nil _⟩
  | case2 x => exact ⟨enc x, rfl, h x List.mem_cons_self⟩
  | case3 x y xs ih =>
    obtain ⟨hx, hxs⟩ := List.forall_mem_cons.mp h
    obtain ⟨body, hbody, hb⟩ := ih hxs
    refine ⟨enc x ++ ([','] ++ body), ?_, hx.append (Balanced.append (balanced_of_steady ?_) hb)⟩
    · rw [joined, hbody]
      simp
    · rw [List.forall_mem_singleton]
      exact scanStep_flat (by decide)

variable {ν : Type} {number : ν → List Char}

theorem balanced_dumpsField {p : String × JsonOf ν}
    (h : Balanced .outside (dumpsChars number p.2)) :
    Balanced .outside (dumpsField number p) := by
  have hcolon : Balanced .outside [':'] :=
    balanced_of_steady (List.forall_mem_singleton.mpr (scanStep_flat (by decide)))
  exact (balanced_quote p.1).append (hcolon.append h)

theorem balanced_dumpsChars (hnumber : ∀ n, ∀ c ∈ number n, flat c) (j : JsonOf ν) :
    Balanced .outside (dumpsChars number j) := by
  have hflat : ∀ text : List Char, (∀ c ∈ text, flat c) → Balanced .outside text := fun text h =>
    balanced_of_steady fun c hc => scanStep_flat (h c hc)
  induction j using JsonOf.induct with
  | null => exact hflat "null".toList (List.all_eq_true.mp (by decide))
  | bool b =>
    cases b with
    | true => exact hflat "true".toList (List.all_eq_true.mp (by decide))
    | false => exact hflat "false".toList (List.all_eq_true.mp (by decide))
  | num n => exact hflat _ (hnumber n)
  | str s => exact balanced_quote s
  | arr items ih =>
    obtain ⟨body, hbody, hb⟩ := balanced_joined ']' ih
    rw [dumpsChars_arr, dumpsItems_eq, hbody]
    exact balanced_enclosed (k := 1) (fun _ => rfl) (fun _ => rfl) hb
  | obj fields ih =>
    obtain ⟨body, hbody, hb⟩ := balanced_joined '}' fun p hp => balanced_dumpsField (ih p hp)
    rw [dumpsChars_obj, dumpsFields_eq, hbody]
    exact balanced_enclosed (k := 1) (fun _ => rfl) (fun _ => rfl) hb

/-- A text between brackets cannot be read when its end is cut off. -/
theorem loads_cut_enclosed (floatOf : List Char → PyFloat) {opens closes : Char} {body : List Char}
    (hopen : scanStep (.outside, 0) opens = (.outside, 0 + 1)) (hb : Balanced .outside body)
    {u : List Char} (hu : u <+: opens :: (body ++ [closes]))
    (hproper : u ≠ opens :: (body ++ [closes])) : loads floatOf u = none := by
  apply Option.eq_none_iff_forall_not_mem.mpr
  intro v hv
  by_cases hne : u = []
  · subst hne
    cases hv
  · have hdepth := enclosed_depth hopen hb hu hne hproper
    rw [scan_of_loads hv] at hdepth
    cases hdepth

theorem loads_cut_array (floatOf : List Char → PyFloat) (hnumber : ∀ n, ∀ c ∈ number n, flat c)
    (items : List (JsonOf ν)) {u : List Char} (hu : u <+: dumpsChars number (.arr items))
    (hproper : u ≠ dumpsChars number (.arr items)) : loads floatOf u = none := by
  obtain ⟨body, hbody, hb⟩ := balanced_joined ']' fun j (_ : j ∈ items) =>
    balanced_dumpsChars hnumber j
  have htext : dumpsChars number (.arr items) = '[' :: (body ++ [']']) := by
    rw [dumpsChars_arr, dumpsItems_eq, hbody]
  rw [htext] at hu hproper
  exact loads_cut_enclosed floatOf rfl hb hu hproper

theorem loads_cut_object (floatOf : List Char → PyFloat) (hnumber : ∀ n, ∀ c ∈ number n, flat c)
    (fields : List (String × JsonOf ν)) {u : List Char} (hu : u <+: dumpsChars number (.obj fields))
    (hproper : u ≠ dumpsChars number (.obj fields)) : loads floatOf u = none := by
  obtain ⟨body, hbody, hb⟩ := balanced_joined '}' fun p (_ : p ∈ fields) =>
    balanced_dumpsField (balanced_dumpsChars hnumber p.2)
  have htext : dumpsChars number (.obj fields) = '{' :: (body ++ ['}']) := by
    rw [dumpsChars_obj, dumpsFields_eq, hbody]
  rw [htext] at hu hproper
  exact loads_cut_enclosed floatOf rfl hb hu hproper

end Texts

end SchemaPilot.JsonLoads
