-- SUMMARY: Many clients of one database, session after session: what they hold refines replicas that overlay one another.
import EdgeReplica.Lib.Overlay
import EdgeReplica.Sync.Interrupted

/-!
# Clients of one database

A database has one store and any number of clients, each with a file of its own. They
push, pull and edit in any order, over connections that may be lost at any moment. What
they hold is told by overlays, and by what SQLite leaves of those that it commits; and so
is when they come to hold the same.
-/

namespace EdgeReplica

open Session (Label)
open Overlay (Replicas Op onto only)

/-! ## Databases laid over one another -/

namespace Database

/-- The pages of `new`, and those of `old` behind them. -/
def overlay (new old : Database) : Database where
  pages := new.pages ++ old.pages.drop new.pages.length
  bounded := by
    have hnew := new.bounded
    have hold := old.bounded
    rw [List.length_append, List.length_drop]
    omega

theorem table_overlay (new old : Database) :
    (new.overlay old).table = new.table.overlay old.table := by
  funext p
  unfold PageTable.overlay table overlay
  by_cases hzero : p = 0
  · simp [hzero]
  · simp only [hzero, if_false, List.getElem?_append, List.getElem?_drop]
    split
    · next hlt => rw [List.getElem?_eq_getElem hlt, Option.some_or]
    · next hge =>
      have hnone : new.pages[p.toNat - 1]? = none := List.getElem?_eq_none (by omega)
      rw [hnone, Option.none_or]
      congr 1
      omega

end Database

/-- All pages of the table are in `S`. -/
def PageTable.Within (table : PageTable) (S : Set Bytes) : Prop :=
  ∀ p data, table p = some data → data ∈ S

theorem PageTable.Within.overlay {new old : PageTable} {S : Set Bytes} (hnew : new.Within S)
    (hold : old.Within S) : (new.overlay old).Within S := by
  intro p data h
  rcases Option.or_eq_some_iff.mp h with h | ⟨-, h⟩
  · exact hnew p data h
  · exact hold p data h

theorem Database.take_within {db : Database} {S : Set Bytes} (h : db.table.Within S) (k : Nat) :
    (db.take k).table.Within S := by
  intro p data hp
  rw [table_take] at hp
  split at hp
  · exact h p data hp
  · cases hp

theorem Database.only_le (db : Database) (k : Nat) :
    only {p | p.toNat ≤ k} db.table = (db.take k).table := by
  funext p
  rw [table_take]
  simp [only]

theorem within_update {I : Type} [DecidableEq I] {files : I → Database} {S : Set Bytes}
    (h : ∀ i, (files i).table.Within S) {i : I} {db : Database} (hdb : db.table.Within S) (j : I) :
    (Function.update files i db j).table.Within S := by
  by_cases hj : j = i
  · subst hj
    rwa [Function.update_self]
  · rw [Function.update_of_ne hj]
    exact h j

/-! ## The clients and their store -/

def PushClient.completed (c : PushClient) : Bool :=
  match c.phase with
  | .finished .. => true
  | _ => false

theorem PushClient.finished_of_completed {c : PushClient} (h : c.completed = true) :
    ∃ pagesTransferred bytesTransferred,
      c.phase = .finished pagesTransferred bytesTransferred := by
  unfold completed at h
  split at h
  · next hphase => exact ⟨_, _, hphase⟩
  · cases h

def PullClient.completed (c : PullClient) : Bool :=
  match c.phase with
  | .finished .. => true
  | _ => false

theorem PullClient.completed_iff {c : PullClient} :
    c.completed = true ↔ ∃ pagesTransferred bytesTransferred,
      c.phase = .finished pagesTransferred bytesTransferred := by
  unfold completed
  split
  · next hphase => exact iff_of_true rfl ⟨_, _, hphase⟩
  · next hphase => exact iff_of_false Bool.false_ne_true fun ⟨_, _, h⟩ => hphase _ _ h

structure Fleet (I : Type) where
  store : Pages
  files : I → Database

namespace Fleet

inductive Move (I : Type) where
  /-- A push by client `i`, and whether it was told of its completion. -/
  | push (i : I) (completed : Bool)
  /-- A pull by client `i`, whether it was committed, and the file afterwards. -/
  | pull (i : I) (completed : Bool) (file : Database)
  /-- Client `i` uses its database. -/
  | edit (i : I) (db : Database)

variable {I : Type} [Blake3] [Sqlite]

section

variable [DecidableEq I]

/-- Sessions come one after the other, each under any schedule and on any connection. -/
inductive Step : Move I → Fleet I → Fleet I → Prop
  | push {f : Fleet I} {i : I} {labels : List Label} {s : Session PushClient}
      (hrun : Machine.run Session.step labels (.start (.new (f.files i)) .push f.store) = some s) :
      Step (.push i s.client.completed) f { f with store := s.pages }
  | pull {f : Fleet I} {i : I} {labels : List Label} {s : Session PullClient}
      (hrun : Machine.run Session.step labels (.start (.new (f.files i)) .pull f.store) = some s) :
      Step (.pull i s.client.completed s.client.file) f
        ⟨s.pages, Function.update f.files i s.client.file⟩
  | edit {f : Fleet I} {i : I} {db : Database} :
      Step (.edit i db) f { f with files := Function.update f.files i db }

inductive Run : List (Move I) → Fleet I → Fleet I → Prop
  | nil {f : Fleet I} : Run [] f f
  | cons {f f' f'' : Fleet I} {move : Move I} {moves : List (Move I)} (hstep : Step move f f')
      (hrun : Run moves f' f'') : Run (move :: moves) f f''

end

/-- The clients of a database that nobody has pushed yet. -/
def start (files : I → Database) : Fleet I := ⟨∅, files⟩

/-! ## What overlays tell of it -/

/-- The table of the store, and all files. -/
def replicas (f : Fleet I) : Replicas I UInt32 Bytes Database := ⟨f.store.bytes, f.files⟩

/-- What a move is to the replicas. -/
inductive Shows : Move I → List (Op I UInt32 Database) → Prop
  | pushed {i : I} : Shows (.push i true) [.push i Set.univ]
  /-- Of a push that ended early, the pages up to one of them were written. -/
  | begun {i : I} (k : Nat) : Shows (.push i false) [.push i {p | p.toNat ≤ k}]
  | pulled {i : I} {file : Database} : Shows (.pull i true file) [.pull i file]
  | idle {i : I} {file : Database} : Shows (.pull i false file) []
  | edited {i : I} {db : Database} : Shows (.edit i db) [.edit i db]

/-- What holds between two sessions when all pages are in `S`. -/
structure Sound (S : Set Bytes) (f : Fleet I) : Prop where
  hashed : f.store.Hashed
  /-- The pages of the store are those of some database. -/
  image : ∃ image : Database, f.store.bytes = image.table
  stored : f.store.bytes.Within S
  held : ∀ i, (f.files i).table.Within S

variable {S : Set Bytes} {f f' : Fleet I} {move : Move I}

omit [Sqlite] in
theorem Sound.injOn (h : Sound S f) (hinj : Set.InjOn pageHash S) (i : I) :
    Set.InjOn pageHash (PushSession.Involved (f.files i) f.store) := by
  refine hinj.mono ?_
  rintro data (⟨p, hp⟩ | ⟨p, page, hpage, rfl⟩)
  · exact h.held i p data hp
  · exact h.stored p page.data (by simp [Pages.bytes, hpage])

omit [Sqlite] in
theorem Sound.numbered (h : Sound S f) : f.store[(0 : UInt32)]? = none := by
  obtain ⟨image, himage⟩ := h.image
  have hzero : f.store.bytes 0 = none := by rw [himage]; rfl
  rwa [Pages.bytes, Option.map_eq_none_iff] at hzero

/-- The files that a move leaves have their pages in `S`. -/
def Move.Within (S : Set Bytes) : Move I → Prop
  | .pull _ _ file => file.table.Within S
  | .edit _ db => db.table.Within S
  | .push _ _ => True

omit [Sqlite] in
theorem Sound.start {files : I → Database} (hfiles : ∀ i, (files i).table.Within S) :
    Sound S (.start files) where
  hashed := Pages.Hashed.empty
  image := ⟨⟨[], by simp⟩, by
    funext p
    simp [Fleet.start, Pages.bytes, Database.table]⟩
  stored := by
    intro p data h
    simp [Fleet.start, Pages.bytes] at h
  held := hfiles

variable [DecidableEq I]

/-- A pull that was committed shows as what SQLite leaves of the overlay. -/
theorem Sound.pulls [Sqlite.Documented] (h : Sound S f) (hinj : Set.InjOn pageHash S) {i : I}
    {labels : List Label} {s : Session PullClient}
    (hrun : Machine.run Session.step labels (.start (.new (f.files i)) .pull f.store) = some s) :
    ∃ ops, Shows (.pull i s.client.completed s.client.file) ops ∧
      Overlay.Run Database.table Sqlite.Settles ops f.replicas
        (replicas ⟨f.store, Function.update f.files i s.client.file⟩) := by
  cases hdone : s.client.completed with
  | true =>
    obtain ⟨_, _, hphase⟩ := PullClient.completed_iff.mp hdone
    have hpulled := PullSession.pulled (PullSession.agrees_of_finished hrun hphase) h.numbered
      h.hashed (h.injOn hinj i) hphase
    exact ⟨_, .pulled, .single (.pull hpulled.settles)⟩
  | false =>
    have hfile : s.client.file = f.files i := by
      refine PullSession.intact_run hrun fun _ _ hphase => ?_
      rw [PullClient.completed_iff.mpr ⟨_, _, hphase⟩] at hdone
      cases hdone
    rw [hfile, Function.update_eq_self]
    exact ⟨_, .idle, .nil⟩

omit [Sqlite] in
/-- A push shows as an overlay of the store, by all pages or by the first of them. -/
theorem Sound.pushes (h : Sound S f) (hinj : Set.InjOn pageHash S) {i : I}
    {labels : List Label} {s : Session PushClient}
    (hrun : Machine.run Session.step labels (.start (.new (f.files i)) .push f.store) = some s) :
    ∃ ops, Shows (.push i s.client.completed) ops ∧
      Overlay.Run Database.table Sqlite.Settles ops f.replicas
        (replicas { f with store := s.pages }) := by
  have hrule (S : Set UInt32) (hstore : s.pages.bytes =
      onto (only S (f.files i).table) f.store.bytes) :
      Overlay.Run Database.table Sqlite.Settles [.push i S] f.replicas
        (replicas { f with store := s.pages }) := by
    show Overlay.Run Database.table Sqlite.Settles _ _ ⟨s.pages.bytes, f.files⟩
    rw [hstore]
    exact .single .push
  cases hdone : s.client.completed with
  | true =>
    obtain ⟨_, _, hphase⟩ := PushClient.finished_of_completed hdone
    refine ⟨_, .pushed, hrule Set.univ ?_⟩
    rw [Overlay.only_univ,
      PushSession.bytes_of_finished h.hashed (h.injOn hinj i) hrun hphase]
    rfl
  | false =>
    obtain ⟨⟨k, hbytes⟩, -⟩ := PushSession.bytes_of_run h.hashed (h.injOn hinj i) hrun
    refine ⟨_, .begun k, hrule _ ?_⟩
    rw [Database.only_le, hbytes]
    rfl

/-- A move keeps the store in order, and shows as what overlays tell. -/
theorem Step.refines [Sqlite.Documented] (hinj : Set.InjOn pageHash S) (h : Sound S f)
    (hmove : move.Within S) (hstep : Step move f f') :
    Sound S f' ∧ ∃ ops, Shows move ops ∧
      Overlay.Run Database.table Sqlite.Settles ops f.replicas f'.replicas := by
  cases hstep with
  | @push _ i labels s hrun =>
    obtain ⟨⟨k, hbytes⟩, hhashed⟩ := PushSession.bytes_of_run h.hashed (h.injOn hinj i) hrun
    refine ⟨⟨hhashed, ?_, ?_, h.held⟩, h.pushes hinj hrun⟩
    · obtain ⟨image, himage⟩ := h.image
      exact ⟨((f.files i).take k).overlay image, by rw [hbytes, himage, Database.table_overlay]⟩
    · show s.pages.bytes.Within S
      rw [hbytes]
      exact (Database.take_within (h.held i) k).overlay h.stored
  | @pull _ i labels s hrun =>
    have hstore : s.pages = f.store := (PullSession.server_of_run hrun).1
    rw [hstore]
    exact ⟨⟨h.hashed, h.image, h.stored, within_update h.held hmove⟩, h.pulls hinj hrun⟩
  | @edit _ i db =>
    exact ⟨⟨h.hashed, h.image, h.stored, within_update h.held hmove⟩, _, .edited, .single .edit⟩

/-- Runs of the clients are runs of replicas that overlay one another. -/
theorem Run.refines [Sqlite.Documented] {moves : List (Move I)} (hinj : Set.InjOn pageHash S)
    (h : Sound S f) (hmoves : ∀ move ∈ moves, move.Within S) (hrun : Run moves f f') :
    Sound S f' ∧ ∃ opss, List.Forall₂ Shows moves opss ∧
      Overlay.Run Database.table Sqlite.Settles opss.flatten f.replicas f'.replicas := by
  induction hrun with
  | nil => exact ⟨h, [], .nil, .nil⟩
  | cons hstep hrun ih =>
    obtain ⟨hmove, hrest⟩ := List.forall_mem_cons.mp hmoves
    obtain ⟨hsound, ops, hshows, hops⟩ := hstep.refines hinj h hmove
    obtain ⟨hsound', opss, hall, hopss⟩ := ih hsound hrest
    exact ⟨hsound', ops :: opss, .cons hshows hall, hops.append hopss⟩

omit [Blake3] [Sqlite] [DecidableEq I] in
/-- Pulls show as pulls. -/
theorem shows_pulls {moves : List (Move I)} {opss : List (List (Op I UInt32 Database))}
    (hpulls : ∀ move ∈ moves, ∃ i completed file, move = .pull i completed file)
    (hshows : List.Forall₂ Shows moves opss) :
    (∀ op ∈ opss.flatten, op.IsPull) ∧
      ∀ i file, .pull i true file ∈ moves → .pull i file ∈ opss.flatten := by
  induction hshows with
  | nil => exact ⟨nofun, nofun⟩
  | @cons move ops moves opss hone _ ih =>
    obtain ⟨⟨i, completed, file, rfl⟩, hrest⟩ := List.forall_mem_cons.mp hpulls
    obtain ⟨hall, hmem⟩ := ih hrest
    cases hone with
    | pulled =>
      refine ⟨List.forall_mem_cons.mpr ⟨trivial, hall⟩, fun j file' hj => ?_⟩
      rcases List.mem_cons.mp hj with heq | hj
      · obtain ⟨rfl, -, rfl⟩ := Move.pull.inj heq
        exact List.mem_cons_self
      · exact List.mem_cons_of_mem _ (hmem j file' hj)
    | idle =>
      refine ⟨hall, fun j file' hj => ?_⟩
      rcases List.mem_cons.mp hj with heq | hj
      · exact absurd (Move.pull.inj heq).2.1 (by simp)
      · exact hmem j file' hj

/-- A file that a commit of the store leaves right. -/
structure Fit (source file : Database) : Prop where
  counted : file.Counted
  vacuum : ¬ Sqlite.Vacuums file (source.bytes 1)

/-- One client has a database of two pages, the other an older one. -/
def sampleFiles : Bool → Database
  | false => Sqlite.twoPages
  | true => Sqlite.onePage

/-- The database of two pages, as the other client commits it. -/
def pulledFile : Database := ⟨[Sqlite.firstPage 2 2 2 1, Sqlite.freePage], by simp⟩

/-- The pages of the samples. -/
def samplePages : Set Bytes := { data | data ∈ Blake3.pages.map Prod.fst }

omit [Blake3] [Sqlite] [DecidableEq I] in
theorem within_samples {db : Database} (h : ∀ data ∈ db.pages, data ∈ Blake3.pages.map Prod.fst) :
    db.table.Within samplePages := fun _ data hp => h data (Database.mem_of_table hp)

omit [Blake3] [Sqlite] in
theorem sampleFiles_within (i : Bool) : (sampleFiles i).table.Within samplePages := by
  cases i <;> exact within_samples (by simp [sampleFiles, Sqlite.twoPages, Sqlite.onePage,
    Blake3.pages])

omit [Blake3] [Sqlite] in
theorem pull_within : Move.Within samplePages (.pull true true pulledFile) :=
  within_samples (by simp [pulledFile, Blake3.pages])

omit [Blake3] [Sqlite] in
/-- The first client pushes, and the second pulls. -/
theorem sampleFiles_run :
    letI := Blake3.onPages
    letI := Sqlite.dbpage
    ∃ f₂ f₃ : Fleet Bool, Step (.push false true) (start sampleFiles) f₂ ∧
      Run [.pull true true pulledFile] f₂ f₃ := by
  let _ := Blake3.onPages
  let _ := Sqlite.dbpage
  obtain ⟨s, hs, hphase, hpages⟩ := PullSession.twoPages_pushed
  have hstep := Step.push (f := start sampleFiles) (i := false) hs
  rw [show s.client.completed = true by simp [PushClient.completed, hphase]] at hstep
  have hrun : (Machine.run Session.step PullSession.samplePull
      (.start (PullClient.new (sampleFiles true)) .pull PullSession.sampleStore)).map
        (fun s => (s.client.completed, s.client.file.pages)) = some (true, pulledFile.pages) := by
    decide +kernel
  rw [show PullSession.sampleStore = s.pages from hpages.symm] at hrun
  obtain ⟨t, ht, heq⟩ := Option.map_eq_some_iff.mp hrun
  obtain ⟨hcompleted, hfile⟩ := Prod.mk.inj heq
  have hstep' := Step.pull (f := ⟨s.pages, sampleFiles⟩) (i := true) ht
  rw [hcompleted, Database.ext hfile] at hstep'
  exact ⟨_, _, hstep, .cons hstep' .nil⟩

end Fleet

end EdgeReplica
