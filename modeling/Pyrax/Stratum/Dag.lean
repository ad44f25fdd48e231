import Pyrax.Base.MemoHash
import Pyrax.Stratum.Kawpow

/-!
# The DAG manager and its files

`pyrax-node/src/consensus/dag.rs`: the cache of an epoch is read from a file of the directory,
or generated and written there. `generate_cache` of `consensus/kawpow.rs`, which the stratum
server has its caches from, stands beside it. Keccak-512 is a parameter.

Files are kept by the epoch in their names. A write can fail, and may leave a part of the file
behind (`Write`); what exists can be read. The full DAG and the paths, which are never filled
in or never read, are left out.

A whole file is read back as it was (`loadCacheFromDisk_cacheFile`) and a part of one as the
same or not at all, so whatever was done before, the manager holds what it generates for its
epoch (`own_after`).
-/

namespace Pyrax.Stratum

open Base

/-- 64 bytes, the output of Keccak-512. -/
abbrev Item := Vector UInt8 64

/-- An item chooses by its first four bytes. -/
def memoHash (keccak512 : List UInt8 → Item) : MemoHash Item where
  zero := Vector.replicate 64 0
  xor := Vector.zipWith (· ^^^ ·)
  hash item := keccak512 item.toList
  index item := Wire.leNat (item.toList.take 4)

theorem memoHash_xor (keccak512 : List UInt8 → Item) (x y : Item) :
    (memoHash keccak512).xor x y = Vector.zipWith (· ^^^ ·) x y := rfl

theorem memoHash_hash (keccak512 : List UInt8 → Item) (x : Item) :
    (memoHash keccak512).hash x = keccak512 x.toList := rfl

theorem memoHash_index (keccak512 : List UInt8 → Item) (x : Item) :
    (memoHash keccak512).index x = Wire.leNat (x.toList.take 4) := rfl

def CACHE_ROUNDS : Nat := 3

/-- `generate_cache` of `kawpow.rs`. -/
def generateCache (keccak512 : List UInt8 → Item) (seed : H256) (cacheSize : UInt64) : List Item :=
  let numItems := cacheSize.toNat / 64
  let m := memoHash keccak512
  m.pass (m.withPrevious numItems) (m.chain (keccak512 seed.asBytes) (numItems - 1))
    (MemoHash.rounds numItems 3)

/-! ## Files -/

inductive DagError where
  | ioError (message : String)
  | invalidHeader (message : String)
  | checksumMismatch
  deriving DecidableEq

structure DagHeader where
  magic : Vector UInt8 4
  version : UInt32
  epoch : UInt64
  itemCount : UInt64
  checksum : H256
  deriving DecidableEq

def DAG_MAGIC : Vector UInt8 4 := #v[0x50, 0x59, 0x52, 0x58]

def DAG_VERSION : UInt32 := 1

namespace DagHeader

/-- The last eight of the 64 bytes stay zero. -/
def toBytes (header : DagHeader) : List UInt8 :=
  header.magic.toList ++ (Wire.encU32 header.version ++ (Wire.encU64 header.epoch ++
    (Wire.encU64 header.itemCount ++ (header.checksum.asBytes ++ List.replicate 8 0))))

def fromBytes : Wire.Decoder DagHeader := do
  let magic ← Wire.takeBytes 4
  let version ← Wire.decU32
  let epoch ← Wire.decU64
  let itemCount ← Wire.decU64
  let checksum ← Wire.takeBytes 32
  let _ ← Wire.takeBytes 8
  pure ⟨arrayFromSlice 4 magic, version, epoch, itemCount, H256.fromSlice checksum⟩

end DagHeader

def readItem : Wire.Decoder Item := do
  let bytes ← Wire.takeBytes 64
  pure (arrayFromSlice 64 bytes)

def computeChecksum (C : Crypto) (data : List Item) : H256 :=
  C.keccak256 (data.flatMap Vector.toList)

/-- What `save_cache_to_disk` writes. -/
def cacheFile (C : Crypto) (epoch : UInt64) (cache : List Item) : List UInt8 :=
  DagHeader.toBytes
      ⟨DAG_MAGIC, DAG_VERSION, epoch, UInt64.ofNat cache.length, computeChecksum C cache⟩ ++
    cache.flatMap Vector.toList

/-- `load_cache_from_disk`. Bytes behind the last item are not looked at. -/
def loadCacheFromDisk (C : Crypto) (file : List UInt8) (expectedEpoch : UInt64) :
    Except DagError (List Item) :=
  match DagHeader.fromBytes.run file with
  | none => .error (.ioError "failed to fill whole buffer")
  | some (header, rest) =>
    if header.magic ≠ DAG_MAGIC then .error (.invalidHeader "Bad magic bytes")
    else if header.version ≠ DAG_VERSION then
      .error (.invalidHeader
        ("Version mismatch: " ++ toString header.version ++ " vs " ++ toString DAG_VERSION))
    else if header.epoch ≠ expectedEpoch then
      .error (.invalidHeader
        ("Epoch mismatch: " ++ toString header.epoch ++ " vs " ++ toString expectedEpoch))
    else match (Wire.decMany readItem header.itemCount.toNat).run rest with
      | none => .error (.ioError "failed to fill whole buffer")
      | some (cache, _) =>
        if computeChecksum C cache ≠ header.checksum then .error .checksumMismatch else .ok cache

/-- How the writing of a file ends. -/
inductive Write where
  | complete
  /-- `File::create` fails. -/
  | notCreated (message : String)
  /-- `write_all` fails, so many bytes of the file being there. -/
  | cutOff (written : Nat) (message : String)
  deriving DecidableEq

/-! ## The manager -/

structure DagManager where
  /-- `cache_epoch_{epoch}.bin` of the directory. -/
  files : Column UInt64 (List UInt8)
  currentEpoch : Option UInt64
  cache : Option (List Item)

namespace DagManager

variable (C : Crypto) (keccak512 : List UInt8 → Item)

def new (files : Column UInt64 (List UInt8)) : DagManager := ⟨files, none, none⟩

def generateCache (epoch : UInt64) : List Item :=
  let cacheItems := (getCacheSize epoch).toNat / 64
  let m := memoHash keccak512
  m.pass (m.withOwn cacheItems)
    (m.chain (keccak512 (computeSeed C epoch).asBytes) (cacheItems - 1))
    (MemoHash.rounds cacheItems CACHE_ROUNDS)

def saveCacheToDisk (files : Column UInt64 (List UInt8)) (epoch : UInt64) (cache : List Item) :
    Write → Except DagError Unit × Column UInt64 (List UInt8)
  | .complete => (.ok (), files.insert epoch (cacheFile C epoch cache))
  | .notCreated message => (.error (.ioError message), files)
  | .cutOff written message =>
    (.error (.ioError message), files.insert epoch ((cacheFile C epoch cache).take written))

def loadEpoch (s : DagManager) (epoch : UInt64) (write : Write) :
    Except DagError Unit × DagManager :=
  match (s.files.lookup epoch).bind fun file => (loadCacheFromDisk C file epoch).toOption with
  | some cache => (.ok (), { s with cache := some cache, currentEpoch := some epoch })
  | none =>
    let cache := generateCache C keccak512 epoch
    match saveCacheToDisk C s.files epoch cache write with
    | (.error e, files) => (.error e, { s with files := files })
    | (.ok (), files) => (.ok (), ⟨files, some epoch, some cache⟩)

def ensureEpoch (s : DagManager) (blockHeight : UInt64) (write : Write) :
    Except DagError Unit × DagManager :=
  let epoch := getEpoch blockHeight
  if s.currentEpoch = some epoch ∧ s.cache.isSome then (.ok (), s)
  else loadEpoch C keccak512 s epoch write

/-- `current > epoch && current - epoch > keep_epochs`. -/
def outdated (s : DagManager) (keepEpochs epoch : UInt64) : Bool :=
  let current := s.currentEpoch.getD 0
  decide (epoch < current ∧ keepEpochs < current - epoch)

def cleanupOldEpochs (s : DagManager) (keepEpochs : UInt64) : Nat × DagManager :=
  ((s.files.keys.filter fun epoch => s.outdated keepEpochs epoch).card,
    { s with files := Column.filter (fun epoch _ => !s.outdated keepEpochs epoch) s.files })

end DagManager

/-- What is done with a manager. To make a new one for the directory is a step as well. -/
inductive DagOp where
  | loadEpoch (epoch : UInt64) (write : Write)
  | ensureEpoch (blockHeight : UInt64) (write : Write)
  | cleanupOldEpochs (keepEpochs : UInt64)
  | restart

namespace DagManager

variable (C : Crypto) (keccak512 : List UInt8 → Item)

def exec (s : DagManager) : DagOp → DagManager
  | .loadEpoch epoch write => (loadEpoch C keccak512 s epoch write).2
  | .ensureEpoch blockHeight write => (ensureEpoch C keccak512 s blockHeight write).2
  | .cleanupOldEpochs keepEpochs => (s.cleanupOldEpochs keepEpochs).2
  | .restart => new s.files

/-- The manager after some steps, from an empty directory. -/
def after (ops : List DagOp) : DagManager := ops.foldl (exec C keccak512) (new ∅)

end DagManager

/-! ## What is read back -/

section Files

variable {C : Crypto} {epoch : UInt64} {cache : List Item} {file : List UInt8}

theorem DagHeader.reads (header : DagHeader) :
    Wire.Reads DagHeader.fromBytes header.toBytes header := by
  have hmagic : Wire.Reads (Wire.takeBytes 4) header.magic.toList header.magic.toList :=
    Wire.reads_takeBytes Vector.length_toList
  have hchecksum := Wire.reads_takeBytes header.checksum.asBytes_length
  have hzeros : Wire.Reads (Wire.takeBytes 8) (List.replicate 8 0) (List.replicate 8 0) :=
    Wire.reads_takeBytes List.length_replicate
  refine hmagic.bind ((Wire.reads_u32 _).bind ((Wire.reads_u64 _).bind ((Wire.reads_u64 _).bind
    (hchecksum.bind (hzeros.map ?_)))))
  rw [arrayFromSlice_toList, H256.fromSlice_asBytes]
  exact Wire.Reads.pure header

theorem reads_readItem (item : Item) : Wire.Reads readItem item.toList item := by
  refine (Wire.reads_takeBytes Vector.length_toList).map ?_
  rw [arrayFromSlice_toList]
  exact Wire.Reads.pure item

theorem DagHeader.local_fromBytes : Wire.Local DagHeader.fromBytes :=
  (Wire.local_takeBytes 4).bind fun _ => Wire.local_u32.bind fun _ => Wire.local_u64.bind fun _ =>
    Wire.local_u64.bind fun _ => (Wire.local_takeBytes 32).bind fun _ =>
      (Wire.local_takeBytes 8).bind fun _ => Wire.local_pure _

theorem local_readItem : Wire.Local readItem :=
  (Wire.local_takeBytes 64).bind fun _ => Wire.local_pure _

/-- A cache that was saved is loaded. -/
theorem loadCacheFromDisk_cacheFile (h : cache.length < 2 ^ 64) :
    loadCacheFromDisk C (cacheFile C epoch cache) epoch = .ok cache := by
  have hcount : (UInt64.ofNat cache.length).toNat = cache.length := UInt64.toNat_ofNat_of_lt' h
  have hread : Wire.Reads (Wire.decMany readItem cache.length) (cache.flatMap Vector.toList)
      cache := Wire.reads_decMany fun item _ => reads_readItem item
  have hitems := hread []
  rw [List.append_nil] at hitems
  rw [loadCacheFromDisk, cacheFile, DagHeader.reads]
  simp only [ne_eq, not_true_eq_false, if_false, hcount, hitems]

/-- What a file begins with decides what is loaded from it. -/
theorem loadCacheFromDisk_append (h : loadCacheFromDisk C file epoch = .ok cache)
    (tail : List UInt8) : loadCacheFromDisk C (file ++ tail) epoch = .ok cache := by
  unfold loadCacheFromDisk at h ⊢
  split at h
  · cases h
  · next header rest hheader =>
    rw [DagHeader.local_fromBytes _ _ _ hheader tail]
    dsimp only at h ⊢
    split at h
    · cases h
    · next hmagic =>
      rw [if_neg hmagic]
      split at h
      · cases h
      · next hversion =>
        rw [if_neg hversion]
        split at h
        · cases h
        · next hepoch =>
          rw [if_neg hepoch]
          split at h
          · cases h
          · next cache' rest' hitems =>
            rw [local_readItem.decMany _ _ _ _ hitems tail]
            exact h

/-- What is loaded from a part of a file is what was saved. -/
theorem eq_of_loadCacheFromDisk {saved : List Item} (hsaved : saved.length < 2 ^ 64)
    (hfile : file <+: cacheFile C epoch saved)
    (h : loadCacheFromDisk C file epoch = .ok cache) : cache = saved := by
  obtain ⟨tail, htail⟩ := hfile
  have hload := loadCacheFromDisk_append h tail
  rw [htail, loadCacheFromDisk_cacheFile hsaved] at hload
  exact (Except.ok.inj hload).symm

end Files

namespace DagManager

variable {C : Crypto} {keccak512 : List UInt8 → Item} {s : DagManager} {epoch : UInt64}
  {write : Write}

theorem length_generateCache : (generateCache C keccak512 epoch).length < 2 ^ 64 := by
  have hsize := (getCacheSize epoch).toNat_lt
  rw [generateCache, MemoHash.length_pass, MemoHash.length_chain]
  omega

/-- The files are those of the generated caches, or parts of them, and the cache is that of its
epoch. -/
structure Own (C : Crypto) (keccak512 : List UInt8 → Item) (s : DagManager) : Prop where
  files : ∀ epoch file, s.files.lookup epoch = some file →
    file <+: cacheFile C epoch (generateCache C keccak512 epoch)
  cache : ∀ epoch cache, s.currentEpoch = some epoch → s.cache = some cache →
    cache = generateCache C keccak512 epoch

/-- The epoch that is loaded has a cache that is read or generated. -/
theorem loadEpoch_ok (h : Own C keccak512 s)
    (hok : (loadEpoch C keccak512 s epoch write).1 = .ok ()) :
    (loadEpoch C keccak512 s epoch write).2.currentEpoch = some epoch ∧
      (loadEpoch C keccak512 s epoch write).2.cache = some (generateCache C keccak512 epoch) := by
  unfold loadEpoch at hok ⊢
  split
  · next cache hcache =>
    obtain ⟨file, hfile, hload⟩ := Option.bind_eq_some_iff.mp hcache
    refine ⟨rfl, congrArg some ?_⟩
    refine eq_of_loadCacheFromDisk length_generateCache (h.files epoch file hfile) ?_
    rcases hresult : loadCacheFromDisk C file epoch with e | loaded
    · rw [hresult] at hload
      cases hload
    · rw [hresult] at hload
      exact congrArg Except.ok (Option.some.inj hload)
  · next hnone =>
    simp only [hnone] at hok
    cases write with
    | complete => exact ⟨rfl, rfl⟩
    | notCreated message => cases hok
    | cutOff written message => cases hok

/-- A load that fails leaves the cache as it was. -/
theorem loadEpoch_error {e : DagError}
    (herror : (loadEpoch C keccak512 s epoch write).1 = .error e) :
    (loadEpoch C keccak512 s epoch write).2.currentEpoch = s.currentEpoch ∧
      (loadEpoch C keccak512 s epoch write).2.cache = s.cache := by
  unfold loadEpoch at herror ⊢
  split
  · next cache hcache =>
    simp only [hcache] at herror
    cases herror
  · next hnone =>
    simp only [hnone] at herror
    cases write with
    | complete => cases herror
    | notCreated message => exact ⟨rfl, rfl⟩
    | cutOff written message => exact ⟨rfl, rfl⟩

/-- Nothing is written, or the file of the epoch. -/
theorem loadEpoch_files (C : Crypto) (keccak512 : List UInt8 → Item) (s : DagManager)
    (epoch : UInt64) (write : Write) :
    (loadEpoch C keccak512 s epoch write).2.files = s.files ∨
      ∃ file, file <+: cacheFile C epoch (generateCache C keccak512 epoch) ∧
        (loadEpoch C keccak512 s epoch write).2.files = s.files.insert epoch file := by
  unfold loadEpoch
  split
  · exact .inl rfl
  · cases write with
    | complete => exact .inr ⟨_, List.prefix_rfl, rfl⟩
    | notCreated message => exact .inl rfl
    | cutOff written message => exact .inr ⟨_, List.take_prefix .., rfl⟩

/-- Only writing fails. -/
theorem loadEpoch_complete : (loadEpoch C keccak512 s epoch .complete).1 = .ok () := by
  unfold loadEpoch
  split <;> rfl

/-! ## Runs -/

theorem own_new : Own C keccak512 (new ∅) where
  files _ _ h := by
    rw [new, Finmap.lookup_empty] at h
    cases h
  cache _ _ h := by cases h

theorem Own.loadEpoch (h : Own C keccak512 s) (epoch : UInt64) (write : Write) :
    Own C keccak512 (DagManager.loadEpoch C keccak512 s epoch write).2 where
  files e file hlookup := by
    rcases loadEpoch_files C keccak512 s epoch write with hfiles | ⟨_, hpart, hfiles⟩
    · exact h.files e file (hfiles ▸ hlookup)
    · rw [hfiles] at hlookup
      by_cases he : e = epoch
      · rw [he, Finmap.lookup_insert, Option.some.injEq] at hlookup
        rw [← hlookup, he]
        exact hpart
      · rw [Finmap.lookup_insert_of_ne _ he] at hlookup
        exact h.files e file hlookup
  cache e cache hcurrent hcache := by
    rcases hresult : (DagManager.loadEpoch C keccak512 s epoch write).1 with e' | _
    · obtain ⟨hcurrent', hcache'⟩ := loadEpoch_error hresult
      exact h.cache e cache (hcurrent' ▸ hcurrent) (hcache' ▸ hcache)
    · obtain ⟨hcurrent', hcache'⟩ := loadEpoch_ok h hresult
      rw [hcurrent', Option.some.injEq] at hcurrent
      rw [hcache', Option.some.injEq] at hcache
      rw [← hcache, hcurrent]

theorem Own.exec (h : Own C keccak512 s) (op : DagOp) :
    Own C keccak512 (s.exec C keccak512 op) := by
  cases op with
  | loadEpoch epoch write => exact h.loadEpoch epoch write
  | ensureEpoch blockHeight write =>
    show Own C keccak512 (ensureEpoch C keccak512 s blockHeight write).2
    unfold ensureEpoch
    dsimp only
    split
    · exact h
    · exact h.loadEpoch _ write
  | cleanupOldEpochs keepEpochs =>
    refine ⟨fun epoch file hlookup => ?_, h.cache⟩
    refine h.files epoch file ?_
    have hkept : (Column.filter (fun epoch _ => !s.outdated keepEpochs epoch) s.files).lookup epoch
        = some file := hlookup
    rw [Column.lookup_filter] at hkept
    exact (Option.filter_eq_some_iff.mp hkept).1
  | restart => exact ⟨h.files, fun _ _ hcurrent => by cases hcurrent⟩

/-- Whatever was done before, the cache is the one that is generated for its epoch. -/
theorem own_after (ops : List DagOp) : Own C keccak512 (after C keccak512 ops) := by
  induction ops using List.reverseRecOn with
  | nil => exact own_new
  | append_singleton ops op ih =>
    rw [after, List.foldl_concat]
    exact ih.exec op

end DagManager

end Pyrax.Stratum
