import SchemaPilot.Canonical
import SchemaPilot.StructuralOrder

namespace SchemaPilot.FingerprintRefinement

open Keyed Digest JsonText Canonical StructuralType StructuralOrder

/-- The name the structural types have for a kind of scalar. -/
def structuralName : ScalarKind → String
  | .null => "null"
  | .boolean => "bool"
  | .integer => "int"
  | .number => "float"
  | .string => "string"

theorem extract_of_scalar {j : Json} {k : ScalarKind} (h : shape j = .scalar k) :
    extractStructuralType j = .str (structuralName k) := by
  cases j with
  | null | bool b | str s =>
    cases h
    rfl
  | num n =>
    cases n <;> cases h <;> rfl
  | arr items | obj fields => cases h

theorem eq_arr_of_shape {j : Json} {items : List Shape} (h : shape j = .array items) :
    ∃ xs, j = .arr xs ∧ xs.map shape = items := by
  cases j with
  | arr xs =>
    rw [shape, shapeItems_eq] at h
    exact ⟨xs, rfl, Shape.array.inj h⟩
  | num n => cases n <;> cases h
  | null | bool b | str s | obj fields => cases h

theorem eq_obj_of_shape {j : Json} {members : String → Option Shape} (h : shape j = .object members) :
    ∃ fs, j = .obj fs ∧ ∀ k, (fs.lookup k).map shape = members k := by
  cases j with
  | obj fs =>
    refine ⟨fs, rfl, fun k => ?_⟩
    rw [← shapeFields_eq]
    exact congrFun (Shape.object.inj h) k
  | num n => cases n <;> cases h
  | null | bool b | str s | arr items => cases h

/-- The structural type of a value shows no more of it than its shape does. -/
theorem extract_eq_of_shape {v w : Json} (hv : v.wf) (hw : w.wf) (h : shape v = shape w) :
    extractStructuralType v = extractStructuralType w := by
  induction v using payload_induct generalizing w with
  | scalar v k hs hc => rw [extract_of_scalar hs, extract_of_scalar (h.symm.trans hs)]
  | arr xs ih =>
    rw [shape, shapeItems_eq] at h
    obtain ⟨ys, rfl, hxy⟩ := eq_arr_of_shape h.symm
    have hx := (JsonOf.wf_arr_iff xs).mp hv
    have hy := (JsonOf.wf_arr_iff ys).mp hw
    apply extract_arr_congr
    · rw [← List.length_eq_zero_iff, ← List.length_map shape, ← hxy, List.length_map,
        List.length_eq_zero_iff]
    · rw [extractItems_eq, extractItems_eq]
      apply congrArg
      exact map_eq_map_of (fun x hm y hm' => ih x hm (hx x hm) (hy y hm')) hxy.symm
  | obj fs ih =>
    rw [shape] at h
    obtain ⟨gs, rfl, hlookup⟩ := eq_obj_of_shape h.symm
    obtain ⟨hf, hfs⟩ := (JsonOf.wf_obj_iff fs).mp hv
    obtain ⟨hg, hgs⟩ := (JsonOf.wf_obj_iff gs).mp hw
    apply (extract_obj_eq_iff hf hg).mpr
    intro k
    have hk := (hlookup k).symm
    rw [shapeFields_eq] at hk
    refine option_map_eq_of (fun x hm y hm' => ?_) hk
    have hx := mem_of_lookup hm
    exact ih (k, x) hx (hfs _ hx) (hgs _ (mem_of_lookup hm'))

/-- The legacy fingerprint is no finer than the registry's: a payload of a fingerprint that has
been submitted has a legacy fingerprint that has been. -/
theorem fingerprintSchema_of_fingerprint (sha256 : ByteArray → String)
    (hsha : Function.Injective sha256) :
    (∀ p q : Payload, fingerprint sha256 (canonicalize p.json) = fingerprint sha256 (canonicalize q.json) →
      fingerprintSchema sha256 p = fingerprintSchema sha256 q) ∧
    ∀ (submitted : List Payload) (q : Payload),
      fingerprint sha256 (canonicalize q.json) ∈
        submitted.map (fun p => fingerprint sha256 (canonicalize p.json)) →
      fingerprintSchema sha256 q ∈ submitted.map (fingerprintSchema sha256) := by
  have hpair : ∀ p q : Payload,
      fingerprint sha256 (canonicalize p.json) = fingerprint sha256 (canonicalize q.json) →
        fingerprintSchema sha256 p = fingerprintSchema sha256 q := by
    intro p q h
    have hs := (fingerprint_eq_iff_shape_eq sha256 hsha p q).mp h
    have hstring := structuralString_eq_of_extract (extract_eq_of_shape p.wf q.wf hs)
    rw [fingerprintSchema, hstring, fingerprintSchema]
  refine ⟨hpair, fun submitted q h => ?_⟩
  obtain ⟨p, hp, he⟩ := List.mem_map.mp h
  exact List.mem_map.mpr ⟨p, hp, hpair p q he⟩

theorem fingerprintSchema_of_fingerprint_sample :
    let p : Payload := ⟨[("id", .num (.int 1)), ("name", .str "x")], by decide⟩
    let q : Payload := ⟨[("name", .str "y"), ("id", .num (.int 7))], by decide⟩
    let sha256 := sampleSha256 [(dumpsSorted (canonicalize p.json),
      "0846952b503944dcf650744f98d3bab29d267a14441f237316b1f4ac27655191"),
      ("id:int;name:string;", "25868507c96f3466031abcd4d136a0152c463c770a427b74320e789454b25ffa")]
    fingerprint sha256 (canonicalize p.json) = fingerprint sha256 (canonicalize q.json) ∧
      fingerprintSchema sha256 p = fingerprintSchema sha256 q := by
  intro p q sha256
  have htext : dumpsSorted (canonicalize p.json) = dumpsSorted (canonicalize q.json) := by
    decide +kernel
  have he : fingerprint sha256 (canonicalize p.json) = fingerprint sha256 (canonicalize q.json) :=
    congrArg (fun s : String => sha256 s.toUTF8) htext
  have hsha : Function.Injective sha256 := sampleSha256_injective _ (by simp) (by simp)
  exact ⟨he, (fingerprintSchema_of_fingerprint sha256 hsha).1 p q he⟩

end SchemaPilot.FingerprintRefinement
