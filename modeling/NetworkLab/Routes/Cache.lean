import NetworkLab.Lib.PyText
import Mathlib.Logic.Function.Basic

/-!
# Route cache of insert-from-bgp

`rebuild_cache`, `all_routes_once` and `all_routes` of
`common/helpers/lab-routes-ipvX/insert-from-bgp:71–111`. The MRT reader is a function of
the content of the dump. A rebuild may be cut by an exception, other than
`FileNotFoundError`, after some routes; a process has one current time. Cache files are
other files than the dumps.
-/

namespace NetworkLab.Routes

open Lib

/-- The text of an address, as the reader gives it. -/
structure AddressText where
  chars : List Char
  address : ∀ c ∈ chars, c ∈ ['0', '1', '2', '3', '4', '5', '6', '7', '8', '9', 'a', 'b', 'c',
    'd', 'e', 'f', ':', '.']

/-- `m.type`, as far as it is looked at. -/
inductive MrtType where
  | tableDumpV2
  | other
  deriving DecidableEq

/-- `m.subtype`, as far as it is looked at. -/
inductive TdV2St where
  | ribIpv4Unicast
  | ribIpv6Unicast
  | other
  deriving DecidableEq

/-- One record of a dump. Only the two kinds of RIB entry have the last two fields. -/
structure Mrt where
  type : MrtType
  subtype : TdV2St
  ribPrefix : AddressText
  ribPlen : Nat

/-- What the reader gives for a dump: its records, and whether it raises after them. -/
structure Reading where
  records : List Mrt
  raises : Bool

/-- What a generator does: the routes it yields, and whether it raises after them. -/
structure Yielded where
  routes : List (List Char)
  raised : Bool
  deriving DecidableEq

/-- A dump file. -/
structure Dump (α : Type) where
  content : α
  mtime : Int

/-- A cache file, decompressed. -/
structure CacheFile where
  text : List Char
  mtime : Int

/-- The files by their paths. -/
structure Files (α : Type) where
  caches : String → Option CacheFile
  dumps : String → Option (Dump α)

/-- The options of a run that the generators look at. -/
structure Options where
  cache : String
  mrtDump : String

section

variable {α : Type} (reader : α → Reading)

/-- The text yielded for a record, `:93`. -/
def routeText (m : Mrt) : List Char := m.ribPrefix.chars ++ '/' :: Nat.toDigits 10 m.ribPlen

/-- The record filter, `:88–93`. -/
def route? (m : Mrt) : Option (List Char) :=
  if m.type ≠ .tableDumpV2 then none
  else if m.subtype ∉ [.ribIpv4Unicast, .ribIpv6Unicast] then none
  else some (routeText m)

/-- `all_routes_once`, `:83–93`. A missing dump raises at once. -/
def allRoutesOnce (fs : Files α) (o : Options) : Yielded :=
  match fs.dumps o.mrtDump with
  | none => ⟨[], true⟩
  | some dump =>
    let r := reader dump.content
    ⟨r.records.filterMap route?, r.raises⟩

/-- The routes that a rebuild writes before it ends or is cut. -/
def written (fs : Files α) (o : Options) (cut : Option Nat) : List (List Char) :=
  match cut with
  | none => (allRoutesOnce reader fs o).routes
  | some n => (allRoutesOnce reader fs o).routes.take n

/-- `rebuild_cache`, `:71–80`: the files afterwards and whether it raises. The file is
closed in either case. -/
def rebuildCache (fs : Files α) (o : Options) (now : Int) (cut : Option Nat) :
    Files α × Bool :=
  let text := (written reader fs o cut).flatMap (· ++ ['\n'])
  ({ fs with caches := Function.update fs.caches o.cache (some ⟨text, now⟩) },
    (allRoutesOnce reader fs o).raised || cut.isSome)

/-- The test for a rebuild, `:102–108`: a file is missing or the cache is older. -/
def stale (fs : Files α) (o : Options) : Bool :=
  match fs.caches o.cache, fs.dumps o.mrtDump with
  | some cache, some dump => decide (cache.mtime < dump.mtime)
  | _, _ => true

/-- Reading the cache, `:109–111`. -/
def readCache (fs : Files α) (o : Options) : Yielded :=
  match fs.caches o.cache with
  | none => ⟨[], true⟩
  | some cache => ⟨(PyText.lines cache.text).map PyText.rstrip, false⟩

/-- `all_routes`, `:96–111`, run to its end: the files afterwards and what it yields. -/
def allRoutes (fs : Files α) (o : Options) (now : Int) (cut : Option Nat) : Files α × Yielded :=
  if o.cache = "" then (fs, allRoutesOnce reader fs o)
  else if stale fs o then
    let rebuilt := rebuildCache reader fs o now cut
    if rebuilt.2 then (rebuilt.1, ⟨[], true⟩) else (rebuilt.1, readCache rebuilt.1 o)
  else (fs, readCache fs o)

/-- What happens between two looks at the files: a dump is put in place or removed, or the
program runs. -/
inductive Event (α : Type) where
  | dump (path : String) (file : Option (Dump α))
  | run (o : Options) (now : Int) (cut : Option Nat)

/-- The files after one event. -/
def Files.next (fs : Files α) : Event α → Files α
  | .dump path file => { fs with dumps := Function.update fs.dumps path file }
  | .run o now cut => (allRoutes reader fs o now cut).1

/-- The files after a history, newest event first, that starts without any cache. -/
def after (dumps : String → Option (Dump α)) : List (Event α) → Files α
  | [] => ⟨fun _ ↦ none, dumps⟩
  | e :: hist => (after dumps hist).next reader e

/-- The routes that the last rebuild of a cache has written. -/
def lastWritten (dumps : String → Option (Dump α)) (cache : String) :
    List (Event α) → Option (List (List Char))
  | [] => none
  | .dump _ _ :: hist => lastWritten dumps cache hist
  | .run o _ cut :: hist =>
    let fs := after reader dumps hist
    if o.cache = cache ∧ o.cache ≠ "" ∧ stale fs o then some (written reader fs o cut)
    else lastWritten dumps cache hist

/-! ### The text of the cache -/

private theorem newline_not_mem_routeText (m : Mrt) : '\n' ∉ routeText m := by
  unfold routeText
  rw [List.mem_append, List.mem_cons]
  rintro (h | h | h)
  · have hmem := m.ribPrefix.address _ h
    revert hmem
    decide
  · cases h
  · have hdigit := Nat.isDigit_of_mem_toDigits (by decide) (by decide) h
    revert hdigit
    decide

private theorem rstrip_routeText (m : Mrt) :
    PyText.rstrip (routeText m ++ ['\n']) = routeText m := by
  have hne : Nat.toDigits 10 m.ribPlen ≠ [] := Nat.toDigits_ne_nil
  obtain ⟨ds, c, hds⟩ := List.eq_nil_or_concat' (Nat.toDigits 10 m.ribPlen) |>.resolve_left hne
  have hc : c.isDigit = true := by
    apply Nat.isDigit_of_mem_toDigits (b := 10) (n := m.ribPlen) (by decide) (by decide)
    rw [hds]
    exact List.mem_append_right _ List.mem_cons_self
  have hlast : routeText m = (m.ribPrefix.chars ++ '/' :: ds) ++ [c] := by
    rw [routeText, hds, List.append_assoc]
    rfl
  rw [hlast]
  exact PyText.rstrip_newline _ c (PyText.isSpace_of_isDigit hc)

/-- Texts that come from records. -/
def FromRecords (routes : List (List Char)) : Prop := ∀ r ∈ routes, ∃ m, r = routeText m

/-- Routes written to a cache are read back as they were. -/
theorem lines_written (routes : List (List Char)) (h : FromRecords routes) :
    (PyText.lines (routes.flatMap (· ++ ['\n']))).map PyText.rstrip = routes := by
  rw [PyText.lines_flatMap, List.map_map]
  · conv_rhs => rw [← List.map_id routes]
    apply List.map_congr_left
    intro r hr
    obtain ⟨m, rfl⟩ := h r hr
    exact rstrip_routeText m
  · intro r hr
    obtain ⟨m, rfl⟩ := h r hr
    exact newline_not_mem_routeText m

private theorem fromRecords_once (fs : Files α) (o : Options) :
    FromRecords (allRoutesOnce reader fs o).routes := by
  unfold allRoutesOnce
  split
  · intro r hr
    cases hr
  · intro r hr
    obtain ⟨m, -, hm⟩ := List.mem_filterMap.mp hr
    refine ⟨m, ?_⟩
    unfold route? at hm
    split at hm
    · cases hm
    · split at hm
      · cases hm
      · exact (Option.some.inj hm).symm

private theorem fromRecords_written (fs : Files α) (o : Options) (cut : Option Nat) :
    FromRecords (written reader fs o cut) := by
  have honce := fromRecords_once reader fs o
  cases cut with
  | none => exact honce
  | some n => exact fun r hr ↦ honce r (List.mem_of_mem_take hr)

/-! ### Runs -/

/-- A cache holds what its last rebuild wrote. -/
def Holds (fs : Files α) (last : String → Option (List (List Char))) : Prop :=
  ∀ path, (fs.caches path).map CacheFile.text = (last path).map (·.flatMap (· ++ ['
'])) ∧
    ∀ routes ∈ last path, FromRecords routes

/-- A run leaves the caches alone or rebuilds the one it was given. -/
theorem allRoutes_caches (fs : Files α) (o : Options) (now : Int) (cut : Option Nat) :
    (allRoutes reader fs o now cut).1.caches =
      if o.cache ≠ "" ∧ stale fs o then
        Function.update fs.caches o.cache
          (some ⟨(written reader fs o cut).flatMap (· ++ ['
']), now⟩)
      else fs.caches := by
  unfold allRoutes
  by_cases hc : o.cache = ""
  · rw [if_pos hc, if_neg (fun h ↦ h.1 hc)]
  · rw [if_neg hc]
    by_cases hs : stale fs o = true
    · have hboth : o.cache ≠ "" ∧ stale fs o = true := ⟨hc, hs⟩
      rw [if_pos hs, if_pos hboth]
      dsimp only
      split <;> rfl
    · rw [if_neg hs, if_neg (fun h ↦ hs h.2)]

/-- After every history each cache holds what its last rebuild wrote. -/
theorem after_holds (dumps : String → Option (Dump α)) (hist : List (Event α)) :
    Holds (after reader dumps hist) (lastWritten reader dumps · hist) := by
  induction hist with
  | nil => exact fun path ↦ ⟨rfl, fun _ h ↦ nomatch h⟩
  | cons e hist ih =>
    cases e with
    | dump path file => exact ih
    | run o now cut =>
      intro path
      have hcaches := allRoutes_caches reader (after reader dumps hist) o now cut
      change Option.map _ ((allRoutes reader (after reader dumps hist) o now cut).1.caches path) =
          Option.map _ (lastWritten reader dumps path (.run o now cut :: hist)) ∧
        ∀ routes ∈ lastWritten reader dumps path (.run o now cut :: hist), FromRecords routes
      rw [hcaches, lastWritten]
      by_cases hrebuilt : o.cache ≠ "" ∧ stale (after reader dumps hist) o = true
      · rw [if_pos hrebuilt]
        by_cases hpath : o.cache = path
        · rw [if_pos ⟨hpath, hrebuilt⟩, hpath, Function.update_self]
          refine ⟨rfl, ?_⟩
          rintro routes ⟨⟩
          exact fromRecords_written reader _ o cut
        · rw [if_neg (fun h ↦ hpath h.1), Function.update_of_ne (Ne.symm hpath)]
          exact ih path
      · rw [if_neg hrebuilt, if_neg (fun h ↦ hrebuilt h.2)]
        exact ih path

/-- Reading a cache that is there gives what its last rebuild wrote. -/
theorem readCache_after (dumps : String → Option (Dump α)) (hist : List (Event α))
    (o : Options) (h : stale (after reader dumps hist) o = false) :
    ∃ routes, lastWritten reader dumps o.cache hist = some routes ∧
      readCache (after reader dumps hist) o = ⟨routes, false⟩ := by
  obtain ⟨htext, hrecords⟩ := after_holds reader dumps hist o.cache
  unfold readCache
  unfold stale at h
  cases hcache : (after reader dumps hist).caches o.cache with
  | none =>
    rw [hcache] at h
    cases h
  | some cache =>
    rw [hcache] at htext
    dsimp only at htext hrecords
    cases hlast : lastWritten reader dumps o.cache hist with
    | none =>
      rw [hlast] at htext
      cases htext
    | some routes =>
      rw [hlast] at htext hrecords
      refine ⟨routes, rfl, ?_⟩
      dsimp only
      rw [Option.some.inj htext, lines_written routes (hrecords routes rfl)]

/-- A run that rebuilds its cache yields the routes of the dump, if reading it does not
raise, and none otherwise. -/
theorem allRoutes_stale (fs : Files α) (o : Options) (now : Int) (hc : o.cache ≠ "")
    (hs : stale fs o = true) :
    (allRoutes reader fs o now none).2.routes =
      if (allRoutesOnce reader fs o).raised then [] else (allRoutesOnce reader fs o).routes := by
  unfold allRoutes rebuildCache
  rw [if_neg hc, if_pos hs]
  dsimp only
  rw [Option.isSome_none, Bool.or_false]
  by_cases hr : (allRoutesOnce reader fs o).raised = true
  · rw [if_pos hr, if_pos hr]
  · rw [if_neg hr, if_neg hr]
    unfold readCache
    dsimp only
    rw [Function.update_self]
    exact lines_written _ (fromRecords_once reader fs o)

/-- After any history, a run yields the routes of its dump exactly when it uses no cache;
or it has to rebuild its cache, and reading the dump does not fail after some routes; or
its cache is not older than the dump, and the last rebuild wrote just these routes. -/
theorem allRoutes_transparent_iff (dumps : String → Option (Dump α)) (hist : List (Event α))
    (o : Options) (now : Int) :
    let fs := after reader dumps hist
    let once := allRoutesOnce reader fs o
    (allRoutes reader fs o now none).2.routes = once.routes ↔
      o.cache = "" ∨
      (stale fs o = true ∧ (once.raised = true → once.routes = [])) ∨
      (stale fs o = false ∧ lastWritten reader dumps o.cache hist = some once.routes) := by
  intro fs once
  by_cases hc : o.cache = ""
  · simp [allRoutes, hc, once]
  · cases hs : stale fs o with
    | true =>
      rw [allRoutes_stale reader fs o now hc hs]
      change (if once.raised then [] else once.routes) = once.routes ↔ _
      cases once.raised with
      | true =>
        rw [if_pos rfl]
        constructor
        · intro h
          exact Or.inr (Or.inl ⟨rfl, fun _ ↦ h.symm⟩)
        · rintro (h | ⟨-, h⟩ | ⟨h, -⟩)
          · exact absurd h hc
          · exact (h rfl).symm
          · cases h
      | false =>
        rw [if_neg Bool.false_ne_true]
        simp
    | false =>
      obtain ⟨routes, hlast, hread⟩ := readCache_after reader dumps hist o hs
      have hyield : (allRoutes reader fs o now none).2 = readCache fs o := by
        unfold allRoutes
        rw [if_neg hc, if_neg (by rw [hs]; exact Bool.false_ne_true)]
      rw [hyield, hread, hlast]
      simp [hc]

end

/-! ### A wrong table -/

/-- The text of `10.0.0.0`. -/
def tenText : AddressText where
  chars := ['1', '0', '.', '0', '.', '0', '.', '0']
  address := by simp

/-- A dump of one IPv4 route, `10.0.0.0` with the given length. -/
def oneRoute (plen : Nat) : List Mrt := [⟨.tableDumpV2, .ribIpv4Unicast, tenText, plen⟩]

/-- The reader of dumps that are their own records. -/
def plainReader (records : List Mrt) : Reading := ⟨records, false⟩

/-- Two dumps, both older than any run. -/
def twoDumps (path : String) : Option (Dump (List Mrt)) :=
  if path = "a" then some ⟨oneRoute 8, 1⟩
  else if path = "b" then some ⟨oneRoute 9, 2⟩
  else none

/-- After a run on dump `a`, a run on the older dump `b` yields the routes of `a`. -/
theorem twoDumps_wrong_table :
    let fs := after plainReader twoDumps [.run ⟨"cache", "a"⟩ 10 none]
    (allRoutes plainReader fs ⟨"cache", "b"⟩ 20 none).2.routes =
        [['1', '0', '.', '0', '.', '0', '.', '0', '/', '8']] ∧
      (allRoutes plainReader fs ⟨"cache", "b"⟩ 20 none).2.routes ≠
        (allRoutesOnce plainReader fs ⟨"cache", "b"⟩).routes := by
  decide

end NetworkLab.Routes
