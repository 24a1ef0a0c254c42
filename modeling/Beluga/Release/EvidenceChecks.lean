import Beluga.Release.EvidenceBundle

/-! # What verification compares

What each check of `verify` says of a bundle, and that a bundle with its own checksums passes the
first one.

* `verify_ok_iff`: the checks one by one;
* `files_of_checkSums`: the files of a bundle;
* `checkSums_sealed`: the checksums of a sealed bundle.
-/

namespace Release

open Py

namespace EvidenceBundle

variable {tools : Tools} {bundle : Bundle}

/-! ## Checks one after the other -/

theorem then_ok {α : Type} {x : Try Unit} {y : Try α} {a : α} :
    (x >>= fun _ => y) = .ok a ↔ x = .ok () ∧ y = .ok a := by
  constructor
  · intro h
    rcases bind_ok_iff.mp h with ⟨u, hx, hy⟩
    exact ⟨hx, hy⟩
  · intro h
    exact bind_ok_iff.mpr ⟨(), h.1, h.2⟩

/-- The checks of the contents. -/
structure Checked (tools : Tools) (bundle : Bundle) (expect_commit : Option String) (inputs : Inputs)
    (contents : Contents) : Prop where
  read : readContents bundle = .ok contents
  manifest : checkManifest tools contents.manifest expect_commit = .ok ()
  sbom : checkSbom tools contents.bom contents.manifest = .ok ()
  inventory : checkInventory contents.inventory = .ok ()
  assets : check_asset_inventory tools contents.assets contents.assets_md = .ok ()
  asset_md : ∃ message, checkSame tools bundle ASSET_MD inputs.asset_md message = .ok ()
  notice : ∃ message, checkSame tools bundle NOTICE_NAME inputs.notice message = .ok ()
  license : ∃ message, checkSame tools bundle LICENSE_NAME inputs.license_file message = .ok ()
  components : checkComponents tools contents.bom inputs = .ok ()

theorem checkSame_ok {name message : String} {source : File} :
    checkSame tools bundle name source message = .ok () ↔
      ∃ data, bundle.lookup name = some data ∧ source.data = some data := by
  unfold checkSame File.read_bytes
  constructor
  · intro h
    rcases bind_ok_iff.mp h with ⟨data, hread, hrest⟩
    rw [caught_ok] at hread
    cases hdata : source.data with
    | none =>
        rw [hdata] at hread
        cases hread
    | some there =>
        rw [hdata] at hread
        obtain rfl := Except.ok.inj hread
        cases hlookup : bundle.lookup name with
        | none =>
            rw [hlookup] at hrest
            cases hrest
        | some shipped =>
            rw [hlookup] at hrest
            obtain rfl := of_decide_eq_true (demand_ok.mp hrest)
            exact ⟨shipped, rfl, rfl⟩
  · intro h
    rcases h with ⟨data, hlookup, hdata⟩
    rw [hdata, hlookup]
    exact bind_ok_iff.mpr ⟨data, rfl, demand_ok.mpr (decide_eq_true rfl)⟩

theorem verify_ok_iff {expect_commit : Option String} {inputs : Inputs} :
    verify tools bundle expect_commit inputs = .ok () ↔ checkSums tools bundle = .ok () ∧
      ∃ contents, Checked tools bundle expect_commit inputs contents := by
  unfold verify
  rw [then_ok]
  refine and_congr_right fun _ => ?_
  constructor
  · intro h
    rcases bind_ok_iff.mp h with ⟨contents, hread, hrest⟩
    rw [caught_ok] at hread
    simp only [then_ok] at hrest
    rcases hrest with ⟨hmanifest, hsbom, hinventory, hassets, hmd, hnotice, hlicense, hcomponents⟩
    exact ⟨contents, hread, hmanifest, hsbom, hinventory, hassets, ⟨_, hmd⟩, ⟨_, hnotice⟩,
      ⟨_, hlicense⟩, hcomponents⟩
  · intro h
    rcases h with ⟨contents, h⟩
    have hsame : ∀ {name : String} {source : File} {message : String},
        (∃ message, checkSame tools bundle name source message = .ok ()) →
          checkSame tools bundle name source message = .ok () := by
      intro name source message hsome
      rcases hsome with ⟨other, hother⟩
      exact checkSame_ok.mpr (checkSame_ok.mp hother)
    refine bind_ok_iff.mpr ⟨contents, caught_ok.mpr h.read, ?_⟩
    simp only [then_ok]
    exact ⟨h.manifest, h.sbom, h.inventory, h.assets, hsame h.asset_md, hsame h.notice,
      hsame h.license, h.components⟩

/-! ## The checksums -/

theorem nodup_REQUIRED : REQUIRED.Nodup := by decide +kernel

theorem sums_not_required : SUMS ∉ REQUIRED := by decide

theorem required_letters : ∀ name ∈ REQUIRED,
    name.toList ≠ [] ∧ name.toList.all nameLetter = true := by
  decide +kernel

theorem checkSums_ok (h : checkSums tools bundle = .ok ()) :
    ∃ (data : ByteArray) (listed : List (String × String)), bundle.lookup SUMS = some data ∧
      (∀ name, name ∈ listed.map Prod.fst ↔ name ∈ REQUIRED) ∧
      (∀ name ∈ bundle.keys, name ∈ listed.map Prod.fst ∨ name = SUMS) ∧
      ∀ entry ∈ listed, checkFile tools bundle entry = .ok () := by
  unfold checkSums at h
  cases hlookup : bundle.lookup SUMS with
  | none =>
      rw [hlookup] at h
      cases h
  | some data =>
      rw [hlookup] at h
      rcases bind_ok_iff.mp h with ⟨text, _, h₁⟩
      rcases bind_ok_iff.mp h₁ with ⟨listed, _, h₂⟩
      rcases then_ok.mp h₂ with ⟨hnames, h₃⟩
      rcases then_ok.mp h₃ with ⟨hextra, h₄⟩
      rcases bind_ok_iff.mp h₄ with ⟨checked, hchecked, _⟩
      rw [demand_ok, Bool.and_eq_true, List.all_eq_true, List.all_eq_true] at hnames
      rw [demand_ok, List.isEmpty_iff, List.filter_eq_nil_iff] at hextra
      refine ⟨data, listed, rfl, ?_, ?_, ?_⟩
      · intro name
        constructor
        · intro hname
          exact List.contains_iff_mem.mp (hnames.1 name hname)
        · intro hname
          exact List.contains_iff_mem.mp (hnames.2 name hname)
      · intro name hname
        have hnot := hextra name hname
        by_cases hlisted : name ∈ listed.map Prod.fst
        · exact .inl hlisted
        · right
          simpa [List.contains_iff_mem, hlisted] using hnot
      · intro entry hentry
        rcases ok_of_mapM hchecked hentry with ⟨_, _, hok⟩
        exact hok

theorem mem_of_checkFile {entry : String × String} (h : checkFile tools bundle entry = .ok ()) :
    entry.1 ∈ bundle := by
  unfold checkFile at h
  cases hlookup : bundle.lookup entry.1 with
  | none =>
      rw [hlookup] at h
      cases h
  | some data => exact AList.lookup_isSome.mp (by rw [hlookup]; rfl)

/-- The files are the required ones and the checksums. -/
theorem files_of_checkSums (h : checkSums tools bundle = .ok ()) (name : String) :
    name ∈ bundle ↔ name ∈ REQUIRED ∨ name = SUMS := by
  rcases checkSums_ok h with ⟨data, listed, hsums, hnames, hkeys, hfiles⟩
  constructor
  · intro hmem
    rcases hkeys name (AList.mem_keys.mp hmem) with hlisted | hname
    · exact .inl ((hnames name).mp hlisted)
    · exact .inr hname
  · intro hname
    rcases hname with hrequired | rfl
    · rcases List.mem_map.mp ((hnames name).mpr hrequired) with ⟨entry, hentry, rfl⟩
      exact mem_of_checkFile (hfiles entry hentry)
    · exact AList.lookup_isSome.mp (by rw [hsums]; rfl)

/-! ## Sealed bundles -/

theorem hexLetter_iff {c : Char} :
    Sbom.hexLetter c = true ↔ c.isDigit = true ∨ ('a' ≤ c ∧ c ≤ 'f') := by
  simp [Sbom.hexLetter]

/-- The line of a digest is read as it was written. -/
theorem readSum_sumLine (data : ByteArray) {name : String} (hname : name ∈ REQUIRED) :
    readSum (sumLine (tools.sha256 data) name) = some (tools.sha256 data, name) := by
  rcases tools.sha256_hex data with ⟨hlength, hhex⟩
  rcases required_letters name hname with ⟨hne, hletters⟩
  have htext : (sumLine (tools.sha256 data) name).toList =
      (tools.sha256 data).toList ++ ([' ', ' '] ++ name.toList) := by
    rw [sumLine, String.toList_append, String.toList_append, List.append_assoc]
    rfl
  have hdrop : (sumLine (tools.sha256 data) name).toList.drop 64 = [' ', ' '] ++ name.toList := by
    rw [htext, ← hlength, List.drop_left]
  have hdrop66 : (sumLine (tools.sha256 data) name).toList.drop 66 = name.toList := by
    rw [show 66 = 64 + 2 from rfl, ← List.drop_drop, hdrop]
    rfl
  have htake : (sumLine (tools.sha256 data) name).toList.take 64 = (tools.sha256 data).toList := by
    rw [htext, ← hlength, List.take_left]
  have hall : (tools.sha256 data).toList.all Sbom.hexLetter = true :=
    List.all_eq_true.mpr fun c hc => hexLetter_iff.mpr (hhex c hc)
  unfold readSum
  rw [hdrop, hdrop66, htake, if_pos ⟨hlength, hall, rfl, hne, hletters⟩, String.ofList_toList,
    String.ofList_toList]

theorem readSums_append {names : List String} {digest : String → ByteArray}
    {listed : List (String × String)}
    (hnodup : (listed.map Prod.fst ++ names).Nodup) (hrequired : ∀ name ∈ names, name ∈ REQUIRED) :
    readSums tools listed (names.map fun name => sumLine (tools.sha256 (digest name)) name) =
      .ok (listed ++ names.map fun name => (name, tools.sha256 (digest name))) := by
  induction names generalizing listed with
  | nil => rw [List.map_nil, List.map_nil, List.append_nil, readSums]
  | cons name names ih =>
      rcases List.forall_mem_cons.mp hrequired with ⟨hname, hnames⟩
      have hfresh : name ∉ listed.map Prod.fst := by
        intro hmem
        exact (List.nodup_append.mp hnodup).2.2 name hmem name List.mem_cons_self rfl
      have hsums : name ≠ SUMS := by
        intro heq
        exact sums_not_required (heq ▸ hname)
      have hdemand : (!(listed.map Prod.fst).contains name && name ≠ SUMS) = true := by
        simp [hfresh, hsums]
      rw [List.map_cons, readSums, readSum_sumLine _ hname]
      refine bind_ok_iff.mpr ⟨(), demand_ok.mpr hdemand, ?_⟩
      rw [ih, List.append_assoc]
      · rfl
      · rw [List.map_append, List.append_assoc]
        exact hnodup
      · exact hnames

theorem mapM_map {α β : Type} {f : α → Try β} {g : α → β} {xs : List α}
    (h : ∀ x ∈ xs, f x = .ok (g x)) : xs.mapM f = .ok (xs.map g) := by
  induction xs with
  | nil => rfl
  | cons x xs ih =>
      rcases List.forall_mem_cons.mp h with ⟨hx, hxs⟩
      rw [List.mapM_cons, hx, ih hxs]
      rfl

/-- The bytes of a file, where there is one. -/
def bytesOf (files : Bundle) (name : String) : ByteArray := (files.lookup name).getD ByteArray.empty

theorem lookup_bytesOf {files : Bundle} {name : String} (h : name ∈ files) :
    files.lookup name = some (bytesOf files name) := by
  rcases Option.isSome_iff_exists.mp (AList.lookup_isSome.mpr h) with ⟨data, hdata⟩
  rw [bytesOf, hdata]
  rfl

/-- The lines of the checksums of these files. -/
def sumLines (tools : Tools) (files : Bundle) : List String :=
  (sortedNames REQUIRED).map fun name => sumLine (tools.sha256 (bytesOf files name)) name

theorem mem_sortedNames {names : List String} {name : String} :
    name ∈ sortedNames names ↔ name ∈ names := (List.perm_insertionSort _ _).mem_iff

theorem sealed_eq {files : Bundle} (hfiles : ∀ name ∈ REQUIRED, name ∈ files) :
    sealed tools files = .ok (files.insert SUMS (write_text (joinLines (sumLines tools files)))) := by
  have hlines : (sortedNames REQUIRED).mapM (sumOf tools files) = .ok (sumLines tools files) := by
    apply mapM_map
    intro name hname
    rw [sumOf, lookup_bytesOf (hfiles name (mem_sortedNames.mp hname))]
  rw [sealed, hlines]
  rfl

theorem nameLetter_line {c : Char} (h : nameLetter c = true) : isLineEnd c = false := by
  have hrange : (48 ≤ c.toNat ∧ c.toNat ≤ 57) ∨ (65 ≤ c.toNat ∧ c.toNat ≤ 90) ∨
      (97 ≤ c.toNat ∧ c.toNat ≤ 122) ∨ c = '.' ∨ c = '_' ∨ c = '-' := by
    simp only [nameLetter, versionLetter, Text.Regex.digit, Bool.or_eq_true, Bool.and_eq_true,
      decide_eq_true_eq] at h
    rcases h with (((((hdigit | hupper) | hlower) | hdot) | hlow) | hminus)
    · exact .inl hdigit
    · exact .inr (.inl hupper)
    · exact .inr (.inr (.inl hlower))
    · exact .inr (.inr (.inr (.inl hdot)))
    · exact .inr (.inr (.inr (.inr (.inl hlow))))
    · exact .inr (.inr (.inr (.inr (.inr hminus))))
  have hvisible : ∀ d : Char, 33 ≤ d.toNat → d.toNat ≤ 126 → isLineEnd d = false := by
    intro d hlow hhigh
    simp only [isLineEnd, Bool.or_eq_false_iff, Bool.and_eq_false_iff, decide_eq_false_iff_not]
    omega
  rcases hrange with h | h | h | rfl | rfl | rfl
  · exact hvisible c (by omega) (by omega)
  · exact hvisible c (by omega) (by omega)
  · exact hvisible c (by omega) (by omega)
  · rfl
  · rfl
  · rfl

theorem hexLetter_nameLetter {c : Char} (h : c.isDigit = true ∨ ('a' ≤ c ∧ c ≤ 'f')) :
    nameLetter c = true := by
  have hle : ∀ {a b : Char}, a ≤ b ↔ a.toNat ≤ b.toNat := Iff.rfl
  simp only [nameLetter, versionLetter, Text.Regex.digit, Bool.or_eq_true, Bool.and_eq_true,
    decide_eq_true_eq]
  rcases h with hdigit | hletter
  · left; left; left; left; left
    simp only [Char.isDigit, Bool.and_eq_true, decide_eq_true_eq] at hdigit
    exact hdigit
  · left; left; left; right
    refine ⟨hletter.1, hle.mpr ((hle.mp hletter.2).trans (by decide))⟩

/-- No line ends within the lines of the checksums. -/
theorem sumLines_line (files : Bundle) :
    ∀ line ∈ sumLines tools files, ∀ c ∈ line.toList, isLineEnd c = false := by
  intro line hline c hc
  rcases List.mem_map.mp hline with ⟨name, hname, rfl⟩
  rw [sumLine, String.toList_append, String.toList_append, List.mem_append, List.mem_append] at hc
  rcases hc with (hdigest | hblank) | hletter
  · exact nameLetter_line (hexLetter_nameLetter ((tools.sha256_hex _).2 c hdigest))
  · have hspace : c = ' ' := by simpa using hblank
    rw [hspace]
    rfl
  · have hall := (required_letters name (mem_sortedNames.mp hname)).2
    exact nameLetter_line (List.all_eq_true.mp hall c hletter)

theorem sumLines_ne_nil (files : Bundle) : sumLines tools files ≠ [] := by
  intro h
  have hnil : sortedNames REQUIRED = [] := List.map_eq_nil_iff.mp h
  have hmem : MANIFEST ∈ sortedNames REQUIRED := mem_sortedNames.mpr List.mem_cons_self
  rw [hnil] at hmem
  cases hmem

theorem clean_joinLines {lines : List String} (hne : lines ≠ [])
    (h : ∀ line ∈ lines, ∀ c ∈ line.toList, isLineEnd c = false) : Clean (joinLines lines) := by
  intro hmem
  rw [toList_joinLines hne] at hmem
  rcases List.mem_flatMap.mp hmem with ⟨l, hl, hc⟩
  rcases List.mem_map.mp hl with ⟨line, hline, rfl⟩
  rcases List.mem_append.mp hc with hin | hend
  · have hfalse := h line hline '\r' hin
    cases hfalse
  · rw [List.mem_singleton] at hend
    exact absurd hend (by decide)

/-- A bundle of the required files with their checksums. -/
theorem checkSums_sealed {files : Bundle} (hfiles : ∀ name, name ∈ files ↔ name ∈ REQUIRED)
    (h : sealed tools files = .ok bundle) : checkSums tools bundle = .ok () := by
  rw [sealed_eq fun name hname => (hfiles name).mpr hname] at h
  obtain rfl := Except.ok.inj h
  have hnames : (sortedNames REQUIRED).Perm REQUIRED := List.perm_insertionSort _ _
  have hread : Py.read_text (write_text (joinLines (sumLines tools files))) =
      .ok (joinLines (sumLines tools files)) :=
    read_text_clean (clean_joinLines (sumLines_ne_nil files) (sumLines_line files))
  have hlisted := @readSums_append tools (sortedNames REQUIRED) (bytesOf files) []
    (hnames.nodup_iff.mpr nodup_REQUIRED) fun name hname => mem_sortedNames.mp hname
  rw [List.nil_append] at hlisted
  have hfst : ((sortedNames REQUIRED).map fun name =>
      (name, tools.sha256 (bytesOf files name))).map Prod.fst = sortedNames REQUIRED := by
    rw [List.map_map]
    exact List.map_id _
  unfold checkSums
  rw [AList.lookup_insert]
  refine bind_ok_iff.mpr ⟨_, hread, ?_⟩
  rw [splitlines_join (sumLines_ne_nil files) (sumLines_line files)]
  refine bind_ok_iff.mpr ⟨_, hlisted, then_ok.mpr ⟨?_, then_ok.mpr ⟨?_, ?_⟩⟩⟩
  · rw [hfst, demand_ok, Bool.and_eq_true, List.all_eq_true, List.all_eq_true]
    constructor
    · intro name hname
      exact List.contains_iff_mem.mpr (mem_sortedNames.mp hname)
    · intro name hname
      exact List.contains_iff_mem.mpr (mem_sortedNames.mpr hname)
  · rw [hfst, demand_ok, List.isEmpty_iff, List.filter_eq_nil_iff]
    intro name hname
    rcases (AList.mem_insert _).mp (AList.mem_keys.mpr hname) with rfl | hmem
    · simp
    · simp [mem_sortedNames, (hfiles name).mp hmem]
  · have hchecked : ((sortedNames REQUIRED).map fun name =>
        (name, tools.sha256 (bytesOf files name))).mapM (checkFile tools
          (files.insert SUMS (write_text (joinLines (sumLines tools files))))) =
        .ok (((sortedNames REQUIRED).map fun name =>
          (name, tools.sha256 (bytesOf files name))).map fun _ => ()) := by
      apply mapM_map
      intro entry hentry
      rcases List.mem_map.mp hentry with ⟨name, hname, rfl⟩
      have hrequired := mem_sortedNames.mp hname
      have hother : name ≠ SUMS := fun heq => sums_not_required (heq ▸ hrequired)
      unfold checkFile
      rw [AList.lookup_insert_ne hother, lookup_bytesOf ((hfiles name).mpr hrequired)]
      exact demand_ok.mpr (decide_eq_true rfl)
    exact bind_ok_iff.mpr ⟨_, hchecked, rfl⟩

end EvidenceBundle

end Release
