import SchemaPilot.NodeSummary
import SchemaPilot.Changelogs

namespace SchemaPilot.ChangelogCache

open Runs Changelogs
open MonitorRunner (SchemaSnapshot)
open NodeSummary (sortedStrings_perm)

/-- The hash does not depend on the order in which the rows come. -/
theorem hashDiffSet_perm (sha256 : ByteArray → String) {diffs diffs' : List DiffRow}
    (h : diffs.Perm diffs') :
    hashDiffSet sha256 diffs = hashDiffSet sha256 diffs' := by
  rw [hashDiffSet, sortedStrings_perm (h.map DiffRow.id), hashDiffSet]

/-- The committed changelog of the snapshot and the diffs of a request. -/
def stored (settings : Settings) (table : ChangelogTable) (r : Reply) : Option Changelog :=
  ({ committed := table } : Session).cached r.snapshotId (hashDiffSet settings.sha256 r.diffs)

section Table

variable {table : ChangelogTable} {snapshotId : Nat} {diffSetHash : String} {c : Changelog}

theorem cached_eq_some_iff :
    ({ committed := table } : Session).cached snapshotId diffSetHash = some c ↔
      c ∈ table.rows ∧ c.snapshotId = snapshotId ∧ c.diffSetHash = diffSetHash := by
  simp only [Session.cached, List.append_nil]
  have hkey : ∀ c',
      table.rows.find? (fun c => c.snapshotId = snapshotId ∧ c.diffSetHash = diffSetHash) = some c' →
      c' ∈ table.rows ∧ c'.snapshotId = snapshotId ∧ c'.diffSetHash = diffSetHash :=
    fun c' hc' => ⟨List.mem_of_find?_eq_some hc', by simpa using List.find?_some hc'⟩
  constructor
  · exact hkey c
  · rintro ⟨hc, hid, hhash⟩
    obtain ⟨c', hc'⟩ : ∃ c',
        table.rows.find? (fun c => c.snapshotId = snapshotId ∧ c.diffSetHash = diffSetHash) = some c' := by
      rw [← Option.isSome_iff_exists, List.find?_isSome]
      exact ⟨c, hc, by simp [hid, hhash]⟩
    obtain ⟨hmem, hid', hhash'⟩ := hkey c' hc'
    obtain rfl := List.inj_on_of_nodup_map table.unique hmem hc
      (Prod.ext (hid'.trans hid.symm) (hhash'.trans hhash.symm))
    exact hc'

end Table

section Replies

variable {settings : Settings} {table : ChangelogTable} {w w' : World}

/-- What the handler of a POST can do. The committed changelogs stay as they are. -/
theorem generate_cases {snapshotId : Nat} {diffRows : List DiffRow} {llmText : Option String}
    (h : generate settings w snapshotId diffRows llmText = some w') :
    (∃ status detail, w' = w.fail snapshotId [] status detail) ∨
      ∃ c called, w' =
        { w with
          nextId := w.nextId + 1
          replies := w.replies ++ [⟨snapshotId, diffRows, called, .ok c⟩] } ∧
        (stored settings w.changelogs ⟨snapshotId, diffRows, called, .ok c⟩ = some c ∧ called = false ∨
          stored settings w.changelogs ⟨snapshotId, diffRows, called, .ok c⟩ = none ∧ c.id = w.nextId) := by
  unfold generate at h
  split at h
  · cases h
    exact .inl ⟨_, _, rfl⟩
  · next snapshot hsnapshot =>
    obtain ⟨-, rfl⟩ := Keyed.mem_of_find?_key hsnapshot
    split at h
    · cases h
      exact .inl ⟨_, _, rfl⟩
    · split at h
      · split at h
        · cases h
          exact .inl ⟨_, _, rfl⟩
        · unfold generateChangelog at h
          dsimp only at h
          split at h
          · next c hc =>
            cases h
            exact .inr ⟨c, false, rfl, .inl ⟨hc, rfl⟩⟩
          · next hc =>
            cases h
            exact .inr ⟨_, _, rfl, .inr ⟨hc, rfl⟩⟩
      · cases h

/-- A request is answered with the stored row, or with a new one. -/
structure Answered (settings : Settings) (table : ChangelogTable) (nextId : Nat) (r : Reply)
    (c : Changelog) : Prop where
  cached : ∀ c', stored settings table r = some c' → c = c' ∧ r.called = false
  fresh : stored settings table r = none → c.id < nextId

structure RepliesInv (settings : Settings) (table : ChangelogTable) (w : World) : Prop where
  kept : w.changelogs = table
  answered : ∀ r ∈ w.replies, ∀ c, r.result = .ok c → Answered settings table w.nextId r c
  apart : w.replies.Pairwise fun r r' => ∀ c c', r.result = .ok c → r'.result = .ok c' →
    stored settings table r = none → stored settings table r' = none → c.id < c'.id

theorem repliesInv_start (settings : Settings) (snapshots : List SchemaSnapshot)
    (diffs : List DiffRow)
    (table : ChangelogTable) (nextId clock : Nat) :
    RepliesInv settings table (start snapshots diffs table nextId clock) :=
  ⟨rfl, List.forall_mem_nil _, .nil⟩

theorem RepliesInv.fail (h : RepliesInv settings table w) (snapshotId status : Nat)
    (detail : String) :
    RepliesInv settings table (w.fail snapshotId [] status detail) := by
  refine ⟨h.kept, forall_mem_concat h.answered fun c hc => ?_,
    List.pairwise_append.mpr ⟨h.apart, List.pairwise_singleton _ _, ?_⟩⟩
  · cases hc
  · intro r hr r' hr' c c' hc hc'
    obtain rfl := List.mem_singleton.mp hr'
    cases hc'

theorem RepliesInv.answer (h : RepliesInv settings table w) {r : Reply} {c : Changelog}
    (hr : r.result = .ok c)
    (hcases : stored settings table r = some c ∧ r.called = false ∨
      stored settings table r = none ∧ c.id = w.nextId) :
    RepliesInv settings table { w with nextId := w.nextId + 1, replies := w.replies ++ [r] } := by
  refine ⟨h.kept, forall_mem_concat (fun r' hr' c' hc' => ?_) fun c' hc' => ?_,
    List.pairwise_append.mpr ⟨h.apart, List.pairwise_singleton _ _,
      fun r' hr' r'' hr'' c' c'' hc' hc'' hnone hnone' => ?_⟩⟩
  · have hold := h.answered r' hr' c' hc'
    exact ⟨hold.cached, fun hnone => Nat.lt_succ_of_lt (hold.fresh hnone)⟩
  · obtain rfl : c = c' := Except.ok.inj (hr.symm.trans hc')
    obtain ⟨hsome, hcalled⟩ | ⟨hnone, hid⟩ := hcases
    · refine ⟨fun c' hc' => ⟨Option.some.inj (hsome.symm.trans hc'), hcalled⟩, fun hnone => ?_⟩
      cases hsome.symm.trans hnone
    · refine ⟨fun c' hc' => ?_, fun _ => Nat.lt_succ_of_le hid.le⟩
      cases hnone.symm.trans hc'
  · obtain rfl := List.mem_singleton.mp hr''
    obtain rfl : c = c'' := Except.ok.inj (hr.symm.trans hc'')
    obtain ⟨hsome, -⟩ | ⟨-, hid⟩ := hcases
    · cases hsome.symm.trans hnone'
    · exact hid ▸ (h.answered r' hr' c' hc').fresh hnone

theorem repliesInv_step {a : Action} (h : RepliesInv settings table w)
    (hs : step settings w a = some w') :
    RepliesInv settings table w' := by
  cases a with
  | generate snapshotId diffRows llmText =>
    obtain ⟨status, detail, rfl⟩ | ⟨c, called, rfl, hcases⟩ := generate_cases hs
    · exact h.fail snapshotId status detail
    · rw [h.kept] at hcases
      exact h.answer rfl hcases
  | store snapshots diffs =>
    cases hs
    exact ⟨h.kept, h.answered, h.apart⟩
  | tick =>
    cases hs
    exact ⟨h.kept, h.answered, h.apart⟩

end Replies

/-- Two requests for the diffs of a snapshot have one changelog exactly when it was stored before
all of them. -/
theorem same_changelog_iff (settings : Settings) (snapshots : List SchemaSnapshot)
    (diffs : List DiffRow)
    (table : ChangelogTable) (nextId clock : Nat) (w : World)
    (h : Reachable (step settings) always (start snapshots diffs table nextId clock) w) (i j : Nat)
    (hij : i < j)
    (first second : Reply) (hi : w.replies[i]? = some first) (hj : w.replies[j]? = some second)
    (row row' : Changelog) (hrow : first.result = .ok row) (hrow' : second.result = .ok row')
    (hsnapshot : first.snapshotId = second.snapshotId) (hset : first.diffs.Perm second.diffs)
    (limit : Nat) :
    (row.id = row'.id ∧ row.generatedText = row'.generatedText ∧ ¬(first.called ∧ second.called) ∧
        row ∈ listChangelogs w.changelogs.rows row.endpointId limit ∧
        row' ∈ listChangelogs w.changelogs.rows row'.endpointId limit) ↔
      ∃ c ∈ table.rows, c.snapshotId = first.snapshotId ∧
        c.diffSetHash = hashDiffSet settings.sha256 first.diffs ∧
        c ∈ listChangelogs table.rows c.endpointId limit := by
  have hinv : RepliesInv settings table w :=
    h.invariant (repliesInv_start settings snapshots diffs table nextId clock)
      fun _ _ _ hi _ hs => repliesInv_step hi hs
  have hfirst := hinv.answered first (List.mem_of_getElem? hi) row hrow
  have hsecond := hinv.answered second (List.mem_of_getElem? hj) row' hrow'
  have hsame : stored settings table second = stored settings table first := by
    rw [stored, stored, hsnapshot, hashDiffSet_perm settings.sha256 hset]
  rw [hinv.kept]
  cases hstored : stored settings table first with
  | none =>
    have hlt : row.id < row'.id := by
      obtain ⟨hi', hi⟩ := List.getElem?_eq_some_iff.mp hi
      obtain ⟨hj', hj⟩ := List.getElem?_eq_some_iff.mp hj
      have hpair := List.pairwise_iff_getElem.mp hinv.apart i j hi' hj' hij
      rw [hi, hj] at hpair
      exact hpair row row' hrow hrow' hstored (hsame.trans hstored)
    refine iff_of_false (fun hids => hlt.ne hids.1) ?_
    rintro ⟨c, hc, hid, hhash, -⟩
    cases hstored.symm.trans (cached_eq_some_iff.mpr ⟨hc, hid, hhash⟩)
  | some c =>
    obtain ⟨rfl, hcalled⟩ := hfirst.cached c hstored
    obtain ⟨rfl, -⟩ := hsecond.cached row (hsame.trans hstored)
    obtain ⟨hmem, hid, hhash⟩ := cached_eq_some_iff.mp hstored
    constructor
    · rintro ⟨-, -, -, hlisted, -⟩
      exact ⟨row', hmem, hid, hhash, hlisted⟩
    · rintro ⟨c, hc, hid', hhash', hlisted⟩
      obtain rfl : row' = c := Option.some.inj (hstored.symm.trans (cached_eq_some_iff.mpr ⟨hc, hid', hhash'⟩))
      exact ⟨rfl, rfl, fun hboth => by simp [hcalled] at hboth, hlisted, hlisted⟩

section Sample

def sampleSettings : Settings := ⟨fun _ => "e3b0c442", none, "claude-haiku-4-5-20251001"⟩

def sampleDiff : DiffRow :=
  ⟨"0b0e", 7, { severity := .breaking, changeType := .removed_field, path := "id", message := "Field id was removed" }⟩

def sampleSnapshot : SchemaSnapshot where
  id := 7
  endpointId := 1
  monitorRunId := 2
  schemaHash := "4820ece8"
  statusCode := 200
  responseTimeMs := 12
  responseSizeBytes := 8
  normalizedSchemaJson := .value [{ path := "a", type := .integer, nullable := false, required := true }]
  rawSampleJson := .sqlNull
  fetchError := none
  createdAt := 0

def sampleChangelog : Changelog :=
  ⟨3, 1, 7, ["0b0e"], "e3b0c442", templateChangelog [sampleDiff.diff], none, 0⟩

def twoRequests : List Action := [.generate 7 [sampleDiff] none, .tick, .generate 7 [sampleDiff] none]

/-- The ids that a list of replies gives. -/
def ids (replies : List Reply) : List (Nat × List DiffRow × Option Nat) :=
  replies.map fun r => (r.snapshotId, r.diffs, r.result.toOption.map Changelog.id)

theorem reply_of_ids {replies : List Reply} {l : List (Nat × List DiffRow × Option Nat)}
    (h : ids replies = l)
    {i snapshotId id : Nat} {diffs : List DiffRow}
    (hi : l[i]? = some (snapshotId, diffs, some id)) :
    ∃ r row, replies[i]? = some r ∧ r.snapshotId = snapshotId ∧ r.diffs = diffs ∧
      r.result = .ok row ∧ row.id = id := by
  rw [← h, ids, List.getElem?_map] at hi
  obtain ⟨r, hr, heq⟩ := Option.map_eq_some_iff.mp hi
  obtain ⟨hsnapshot, heq⟩ := Prod.mk.inj heq
  obtain ⟨hdiffs, hid⟩ := Prod.mk.inj heq
  obtain ⟨row, hrow, hid⟩ := Option.map_eq_some_iff.mp hid
  refine ⟨r, row, hr, hsnapshot, hdiffs, ?_, hid⟩
  cases hresult : r.result with
  | ok c =>
    rw [hresult] at hrow
    exact congrArg _ (Option.some.inj hrow)
  | error e =>
    rw [hresult] at hrow
    cases hrow

theorem same_changelog_stored_before :
    ∃ (w : World) (first second : Reply) (row row' : Changelog),
      Reachable (step sampleSettings) always
        (start [sampleSnapshot] [sampleDiff] ⟨[sampleChangelog], List.nodup_singleton _⟩ 5 1) w ∧
      w.replies[0]? = some first ∧ w.replies[1]? = some second ∧ first.result = .ok row ∧ second.result = .ok row' ∧
      row.id = row'.id ∧ row ∈ listChangelogs w.changelogs.rows row.endpointId 20 := by
  have hrun : (run (step sampleSettings) always
      (start [sampleSnapshot] [sampleDiff] ⟨[sampleChangelog], List.nodup_singleton _⟩ 5 1) twoRequests).map
        (fun w => ids w.replies) = some [(7, [sampleDiff], some 3), (7, [sampleDiff], some 3)] := by decide +kernel
  obtain ⟨w, hw, hids⟩ := Option.map_eq_some_iff.mp hrun
  obtain ⟨first, row, hi, hsnapshot, hdiffs, hrow, -⟩ := reply_of_ids hids (i := 0) rfl
  obtain ⟨second, row', hj, hsnapshot', hdiffs', hrow', -⟩ := reply_of_ids hids (i := 1) rfl
  have hreach := reachable_run (step sampleSettings) always .start hw
  have hboth := (same_changelog_iff sampleSettings [sampleSnapshot] [sampleDiff]
    ⟨[sampleChangelog], List.nodup_singleton _⟩ 5 1 w hreach 0 1 Nat.zero_lt_one first second hi hj
    row row' hrow hrow'
    (hsnapshot.trans hsnapshot'.symm) (by rw [hdiffs, hdiffs']) 20).mpr
    ⟨sampleChangelog, List.mem_singleton_self _, hsnapshot.symm, rfl, by decide +kernel⟩
  exact ⟨w, first, second, row, row', hreach, hi, hj, hrow, hrow', hboth.1, hboth.2.2.2.1⟩

/-- The session of the first request is closed without a commit, and the second one makes a new row. -/
theorem two_requests_two_changelogs :
    ¬∀ (w : World) (first second : Reply) (row row' : Changelog),
      Reachable (step sampleSettings) always (start [sampleSnapshot] [sampleDiff] ⟨[], List.nodup_nil⟩ 5 1) w →
      w.replies[0]? = some first → w.replies[1]? = some second → first.result = .ok row → second.result = .ok row' →
      first.snapshotId = second.snapshotId → first.diffs.Perm second.diffs → row.id = row'.id := by
  intro h
  have hrun : (run (step sampleSettings) always (start [sampleSnapshot] [sampleDiff] ⟨[], List.nodup_nil⟩ 5 1)
      twoRequests).map (fun w => ids w.replies) =
        some [(7, [sampleDiff], some 5), (7, [sampleDiff], some 6)] := by decide +kernel
  obtain ⟨w, hw, hids⟩ := Option.map_eq_some_iff.mp hrun
  obtain ⟨first, row, hi, hsnapshot, hdiffs, hrow, hid⟩ := reply_of_ids hids (i := 0) rfl
  obtain ⟨second, row', hj, hsnapshot', hdiffs', hrow', hid'⟩ := reply_of_ids hids (i := 1) rfl
  have heq := h w first second row row' (reachable_run (step sampleSettings) always .start hw) hi hj hrow hrow'
    (hsnapshot.trans hsnapshot'.symm) (by rw [hdiffs, hdiffs'])
  rw [hid, hid'] at heq
  cases heq

end Sample

end SchemaPilot.ChangelogCache
