-- SUMMARY: What a combined hash that matches says about the pages of its range on both sides.
import Mathlib.Data.Set.Function
import EdgeReplica.Services.SqlSyncStorage

/-!
# Matching batches

A combined hash is the digest of the page hashes in a range, one after the other. The
page numbers do not go into it, so it tells two ranges apart only as far as their
hashes do.
-/

namespace EdgeReplica

/-! ## Digests -/

/-- No two of the inputs have the same digest. -/
def Blake3.Distinguishes [Blake3] (inputs : Set Bytes) : Prop := Set.InjOn Blake3.hash inputs

/-- Chunks of one length are found again in their concatenation. -/
theorem flatten_inj_of_length {n : Nat} (hn : 0 < n) {l₁ l₂ : List Bytes}
    (h₁ : ∀ chunk ∈ l₁, chunk.length = n) (h₂ : ∀ chunk ∈ l₂, chunk.length = n)
    (h : l₁.flatten = l₂.flatten) : l₁ = l₂ := by
  induction l₁ generalizing l₂ with
  | nil =>
    cases l₂ with
    | nil => rfl
    | cons chunk l₂ =>
      have hchunk := h₂ chunk List.mem_cons_self
      have hempty : chunk = [] := (List.append_eq_nil_iff.mp h.symm).1
      rw [hempty] at hchunk
      exact absurd hchunk.symm (Nat.pos_iff_ne_zero.mp hn)
  | cons chunk l₁ ih =>
    obtain ⟨hchunk, hchunks⟩ := List.forall_mem_cons.mp h₁
    cases l₂ with
    | nil =>
      have hempty : chunk = [] := (List.append_eq_nil_iff.mp h).1
      rw [hempty] at hchunk
      exact absurd hchunk.symm (Nat.pos_iff_ne_zero.mp hn)
    | cons chunk' l₂ =>
      obtain ⟨hchunk', hchunks'⟩ := List.forall_mem_cons.mp h₂
      obtain ⟨rfl, hrest⟩ := List.append_inj h (hchunk.trans hchunk'.symm)
      rw [ih hchunks hchunks' hrest]

/-! ## Ranges -/

namespace Pages

variable (pages : Pages) (start stop : UInt32)

/-- The hashes of the pages in the range, in the order of their numbers. -/
def hashesIn : List Bytes := (pages.inRange start stop).map fun row => row.2.hash

/-- The numbers of the pages in the range. -/
def numbersIn : List UInt32 := (pages.inRange start stop).map Prod.fst

/-- The bytes of the pages in the range. -/
def bytesIn : Set Bytes := { data | ∃ row ∈ pages.inRange start stop, row.2.data = data }

variable {pages start stop}

theorem mem_inRange {row : UInt32 × Page} :
    row ∈ pages.inRange start stop ↔
      (start ≤ row.1 ∧ row.1 ≤ stop) ∧ pages[row.1]? = some row.2 := by
  rw [inRange, List.mem_filterMap]
  constructor
  · rintro ⟨p, hp, hrow⟩
    obtain ⟨page, hpage, rfl⟩ := Option.map_eq_some_iff.mp hrow
    exact ⟨mem_pageRange.mp hp, hpage⟩
  · rintro ⟨hrange, hpage⟩
    exact ⟨row.1, mem_pageRange.mpr hrange, by rw [hpage]; rfl⟩

theorem combinedHash_eq [Blake3] :
    pages.combinedHash start stop = Blake3.hash (pages.hashesIn start stop).flatten := by
  have hflat : (pageRange start stop).flatMap (fun p => ((pages[p]?).map Page.hash).getD []) =
      (pages.hashesIn start stop).flatten := by
    unfold hashesIn inRange
    induction pageRange start stop with
    | nil => rfl
    | cons p rest ih =>
      rw [List.flatMap_cons, ih, List.filterMap_cons]
      cases pages[p]? <;> rfl
  rw [combinedHash, hflat]

end Pages

/-! ## Matching -/

variable {σ : Type} [LawfulStorage σ] [Blake3]

/-- The combined hash of the storage is that of the client's pages. -/
def Matches (s : σ) (client : Pages) (start stop : UInt32) : Prop :=
  ∃ s', (SyncStorage.combinedHash start stop).run s = .ok (client.combinedHash start stop) s'

/-- Both sides have the same pages in the range, with the same hashes. -/
def Identical (server client : Pages) (start stop : UInt32) : Prop :=
  ∀ p, start ≤ p → p ≤ stop → client[p]? = server[p]?

theorem matches_iff {s : σ} {client : Pages} {start stop : UInt32} :
    Matches s client start stop ↔
      (LawfulStorage.pages s).combinedHash start stop = client.combinedHash start stop := by
  have hrefines := SyncStorage.combinedHash_refines start stop s
  rw [Pages.run_combinedHash] at hrefines
  unfold Matches
  cases hr : (SyncStorage.combinedHash start stop : StoreM σ Bytes).run s with
  | error e s' =>
    rw [hr] at hrefines
    cases hrefines
  | ok hash s' =>
    rw [hr] at hrefines
    obtain ⟨hhash, -⟩ := EStateM.Result.ok.inj hrefines
    rw [hhash]
    constructor
    · rintro ⟨s'', hok⟩
      exact (EStateM.Result.ok.inj hok).1
    · intro hsame
      exact ⟨s', by rw [hsame]⟩

/-- What is taken of BLAKE3 for a batch: the digests of the pages in the range have 32
bytes, no two of these pages have the same digest, nor have the two concatenations. -/
structure BatchDigests (server client : Pages) (start stop : UInt32) : Prop where
  length : ∀ data ∈ server.bytesIn start stop ∪ client.bytesIn start stop,
    (pageHash data).length = 32
  pages : Blake3.Distinguishes (server.bytesIn start stop ∪ client.bytesIn start stop)
  concatenations : Blake3.Distinguishes
    {(server.hashesIn start stop).flatten, (client.hashesIn start stop).flatten}

theorem hashesIn_length {pages : Pages} {start stop : UInt32} {n : Nat} (hhashed : pages.Hashed)
    (hlength : ∀ data ∈ pages.bytesIn start stop, (pageHash data).length = n) :
    ∀ hash ∈ pages.hashesIn start stop, hash.length = n := by
  intro hash hmem
  obtain ⟨row, hrow, rfl⟩ := List.mem_map.mp hmem
  rw [hhashed row.1 row.2 (Pages.mem_inRange.mp hrow).2]
  exact hlength _ ⟨row, hrow, rfl⟩

section

variable {s : σ} {client : Pages} {start stop : UInt32}

/-- A batch matches when both sides have the same hashes in the range, one after the
other. -/
theorem matches_iff_hashes (hserver : (LawfulStorage.pages s).Hashed) (hclient : client.Hashed)
    (hdigests : BatchDigests (LawfulStorage.pages s) client start stop) :
    Matches s client start stop ↔
      (LawfulStorage.pages s).hashesIn start stop = client.hashesIn start stop := by
  rw [matches_iff, Pages.combinedHash_eq, Pages.combinedHash_eq]
  constructor
  · intro h
    refine flatten_inj_of_length (n := 32) (by decide)
      (hashesIn_length hserver fun data hdata => hdigests.length data (.inl hdata))
      (hashesIn_length hclient fun data hdata => hdigests.length data (.inr hdata)) ?_
    exact hdigests.concatenations (.inl rfl) (.inr rfl) h
  · intro h
    rw [h]

omit [LawfulStorage σ] in
/-- The rows of a range are told by their numbers and hashes. -/
theorem inRange_eq {server : Pages} (hserver : server.Hashed) (hclient : client.Hashed)
    (hdigests : BatchDigests server client start stop)
    (hnumbers : server.numbersIn start stop = client.numbersIn start stop)
    (hhashes : server.hashesIn start stop = client.hashesIn start stop) :
    server.inRange start stop = client.inRange start stop := by
  have hlength := congrArg List.length hnumbers
  rw [Pages.numbersIn, Pages.numbersIn, List.length_map, List.length_map] at hlength
  refine List.ext_getElem hlength fun i hi hi' => ?_
  have hnumber : (server.inRange start stop)[i].1 = (client.inRange start stop)[i].1 := by
    have h := List.getElem_of_eq hnumbers (i := i) (by simpa [Pages.numbersIn] using hi)
    simpa [Pages.numbersIn] using h
  have hhash : (server.inRange start stop)[i].2.hash = (client.inRange start stop)[i].2.hash := by
    have h := List.getElem_of_eq hhashes (i := i) (by simpa [Pages.hashesIn] using hi)
    simpa [Pages.hashesIn] using h
  have hrow := List.getElem_mem hi
  have hrow' := List.getElem_mem hi'
  generalize (server.inRange start stop)[i] = row at hnumber hhash hrow
  generalize (client.inRange start stop)[i] = row' at hnumber hhash hrow'
  have hdata : row.2.data = row'.2.data := by
    refine hdigests.pages (.inl ⟨row, hrow, rfl⟩) (.inr ⟨row', hrow', rfl⟩) ?_
    rw [hserver _ _ (Pages.mem_inRange.mp hrow).2, hclient _ _ (Pages.mem_inRange.mp hrow').2]
      at hhash
    exact hhash
  obtain ⟨p, data, hash⟩ := row
  obtain ⟨p', data', hash'⟩ := row'
  simp_all

omit [LawfulStorage σ] [Blake3] in
theorem identical_iff {server : Pages} :
    Identical server client start stop ↔
      server.inRange start stop = client.inRange start stop := by
  constructor
  · intro h
    refine List.filterMap_congr fun p hp => ?_
    obtain ⟨hstart, hstop⟩ := mem_pageRange.mp hp
    rw [h p hstart hstop]
  · intro h p hstart hstop
    refine Option.ext fun page => ?_
    have hmem : (p, page) ∈ client.inRange start stop ↔ (p, page) ∈ server.inRange start stop := by
      rw [h]
    rw [Pages.mem_inRange, Pages.mem_inRange] at hmem
    simpa [hstart, hstop] using hmem

/-- A batch that matches means identical pages exactly when the same hashes, one after
the other, are those of the same page numbers on both sides. -/
theorem batch_match_iff (hserver : (LawfulStorage.pages s).Hashed) (hclient : client.Hashed)
    (hdigests : BatchDigests (LawfulStorage.pages s) client start stop) :
    (Matches s client start stop → Identical (LawfulStorage.pages s) client start stop) ↔
      ((LawfulStorage.pages s).hashesIn start stop = client.hashesIn start stop →
        (LawfulStorage.pages s).numbersIn start stop = client.numbersIn start stop) := by
  rw [matches_iff_hashes hserver hclient hdigests, identical_iff]
  refine forall_congr' fun hhashes => ⟨fun h => ?_, fun hnumbers => ?_⟩
  · rw [Pages.numbersIn, h]
    rfl
  · exact inRange_eq hserver hclient hdigests hnumbers hhashes

end

section Samples

omit [LawfulStorage σ] [Blake3]

/-- What BLAKE3 makes of the digest of the first sample page, and of the digests of the
first two. -/
def Blake3.batchSamples : List (Bytes × Bytes) :=
  [(onSamples.hash [1], [61, 217, 9, 88, 33, 242, 106, 24, 181, 98, 39, 67, 210, 209, 89, 97,
     223, 215, 15, 228, 3, 242, 117, 141, 202, 0, 167, 209, 203, 70, 97,
     150]),
   (onSamples.hash [1] ++ onSamples.hash [2],
     [38, 67, 250, 116, 205, 50, 60, 13, 128, 150, 50, 7, 172, 97, 125, 54,
      64, 135, 226, 7, 94, 26, 166, 11, 161, 201, 239, 70, 28, 210, 138, 126])]

/-- The digest on the sample pages and on these concatenations. -/
abbrev Blake3.onBatches : Blake3 where
  hash data := ((samples ++ batchSamples).lookup data).getD []

theorem onBatches_digests {server client : Pages} {start stop : UInt32}
    (hpages : ∀ row ∈ server.inRange start stop ++ client.inRange start stop,
      row.2.data ∈ Blake3.samples.map Prod.fst)
    (hserver : (server.hashesIn start stop).flatten ∈ Blake3.batchSamples.map Prod.fst)
    (hclient : (client.hashesIn start stop).flatten ∈ Blake3.batchSamples.map Prod.fst) :
    @BatchDigests Blake3.onBatches server client start stop := by
  have hmem : ∀ data ∈ server.bytesIn start stop ∪ client.bytesIn start stop,
      data ∈ Blake3.samples.map Prod.fst := by
    rintro data (⟨row, hrow, rfl⟩ | ⟨row, hrow, rfl⟩)
    · exact hpages row (List.mem_append_left _ hrow)
    · exact hpages row (List.mem_append_right _ hrow)
  have hlength : ∀ data ∈ Blake3.samples.map Prod.fst,
      (@pageHash Blake3.onBatches data).length = 32 := by decide
  have hinj : ∀ a ∈ (Blake3.samples ++ Blake3.batchSamples).map Prod.fst,
      ∀ b ∈ (Blake3.samples ++ Blake3.batchSamples).map Prod.fst,
      Blake3.onBatches.hash a = Blake3.onBatches.hash b → a = b := by decide +kernel
  have hconcat : ∀ data ∈ ({(server.hashesIn start stop).flatten,
      (client.hashesIn start stop).flatten} : Set Bytes),
      data ∈ Blake3.batchSamples.map Prod.fst := by
    rintro data (rfl | rfl)
    · exact hserver
    · exact hclient
  rw [List.map_append] at hinj
  refine @BatchDigests.mk Blake3.onBatches _ _ _ _
    (fun data hdata => hlength data (hmem data hdata))
    ?_ ?_
  · intro a ha b hb hab
    exact hinj a (List.mem_append_left _ (hmem a ha)) b (List.mem_append_left _ (hmem b hb)) hab
  · intro a ha b hb hab
    exact hinj a (List.mem_append_right _ (hconcat a ha)) b (List.mem_append_right _ (hconcat b hb))
      hab

/-- Two pages on both sides, and a third out of the range. -/
theorem batch_match_two :
    letI := Blake3.onBatches
    letI client : Pages := Pages.replay ∅ [⟨1, [1]⟩, ⟨2, [2]⟩]
    letI server : InMemorySyncStorage := Pages.replay ∅ [⟨1, [1]⟩, ⟨2, [2]⟩, ⟨3, [3]⟩]
    Matches server client 1 2 ∧ Identical server client 1 2 := by
  let _ := Blake3.onBatches
  let client : Pages := Pages.replay ∅ [⟨1, [1]⟩, ⟨2, [2]⟩]
  let server : InMemorySyncStorage := Pages.replay ∅ [⟨1, [1]⟩, ⟨2, [2]⟩, ⟨3, [3]⟩]
  have hmatches : Matches server client 1 2 := matches_iff.mpr (by decide +kernel)
  have hnumbers : Pages.numbersIn server 1 2 = Pages.numbersIn client 1 2 := by decide +kernel
  refine ⟨hmatches, (batch_match_iff (s := server) ?_ ?_ ?_).mpr (fun _ => hnumbers) hmatches⟩
  · exact Pages.Hashed.empty.replay _
  · exact Pages.Hashed.empty.replay _
  · exact onBatches_digests (by decide +kernel) (by decide +kernel) (by decide +kernel)

/-- The same bytes under another number match. -/
theorem batch_match_shifted :
    letI := Blake3.onBatches
    ¬ ∀ (server : InMemorySyncStorage) (client : Pages) (start stop : UInt32),
      Pages.Hashed server → client.Hashed → BatchDigests server client start stop →
      Matches server client start stop → Identical server client start stop := by
  let _ := Blake3.onBatches
  intro h
  let client : Pages := Pages.replay ∅ [⟨1, [1]⟩]
  let server : InMemorySyncStorage := Pages.replay ∅ [⟨2, [1]⟩]
  have hidentical := h server client 1 2 (Pages.Hashed.empty.replay _) (Pages.Hashed.empty.replay _)
    (onBatches_digests (by decide +kernel) (by decide +kernel) (by decide +kernel))
    (matches_iff.mpr (by decide +kernel)) 1 (by decide) (by decide)
  exact absurd hidentical (by decide +kernel)

end Samples

end EdgeReplica
