import AlterChat.Lib.Paths
import AlterChat.Core.Governance
import AlterChat.Core.Identity

/-!
# The files of a profile

A profile has no name but the first sixteen digits of its password's hash. `login_profile` and
`StartSession` make the paths of its database and its key file from them; `storage_root_for_db`
finds the directory of its chunks from the database's path. An amnesic session has `:memory:` for
both paths, and the directory `default`.

* §1 the tag, §2 the paths, §3 the storage root;
* §4 `storageRoot_place` -- where the storage root of a session lies.
-/

namespace AlterChat.Profile

open Lib Lib.Paths Governance Identity

/-! ## 1. The tag of a password -/

/-- SHA-256, with the length of what it yields. -/
structure Sha256 where
  digest : Bytes → Bytes
  length_digest : ∀ m, (digest m).length = 32

/-- `hash_hex`. -/
def hashHex (H : Sha256) (password : String) : String :=
  hexString (H.digest (Codec.utf8.enc password))

/-- `&hash_hex[0..16]`. -/
def tag (H : Sha256) (password : String) : String :=
  String.ofList ((hashHex H password).toList.take 16)

/-! ## 2. Paths -/

def profileDb (tag : String) : String := "alterchat_" ++ tag ++ ".db"

def profileKey (tag : String) : String := "keypair_" ++ tag ++ ".bin"

/-- `db_path`, as `login_profile` and `StartSession` make it. -/
def dbPathOf (H : Sha256) (password : String) (amnesic : Bool) : String :=
  if amnesic then MEMORY else profileDb (tag H password)

/-- `key_path`, likewise. -/
def keyPathOf (H : Sha256) (password : String) (amnesic : Bool) : String :=
  if amnesic then MEMORY else profileKey (tag H password)

/-! ## 3. The storage root -/

/-- `str::strip_prefix`. -/
def stripPrefix (s pre : String) : Option String :=
  (s.toList.dropPrefix? pre.toList).map String.ofList

/-- `str::strip_suffix`. -/
def stripSuffix (s suf : String) : Option String :=
  (s.toList.dropSuffix? suf.toList).map String.ofList

/-- The profile's directory below `alterchat_storage`. -/
def storageName (dbPath : String) : String :=
  ((stripPrefix dbPath "alterchat_").bind fun s => stripSuffix s ".db").getD "default"

/-- `storage_root_for_db`. -/
def storageRootForDb (dbPath : String) : String := join "alterchat_storage" (storageName dbPath)

example :
    storageRootForDb "alterchat_0123456789abcdef.db" = "alterchat_storage/0123456789abcdef" := by
  decide

example : storageRootForDb MEMORY = "alterchat_storage/default" := by decide

/-! ## 4. Where it lies -/

theorem stripPrefix_append (pre s : String) : stripPrefix (pre ++ s) pre = some s := by
  unfold stripPrefix
  rw [String.toList_append, List.dropPrefix?_append_of_beq _ (BEq.refl _)]
  exact congrArg some String.ofList_toList

theorem stripSuffix_append (s suf : String) : stripSuffix (s ++ suf) suf = some s := by
  have h : (s ++ suf).toList.dropSuffix? suf.toList = some s.toList :=
    List.dropSuffix?_eq_some_iff.mpr ⟨suf.toList, String.toList_append, BEq.refl _⟩
  unfold stripSuffix
  rw [h]
  exact congrArg some String.ofList_toList

/-- The storage of a profile has its tag. -/
theorem storageName_profileDb (tag : String) : storageName (profileDb tag) = tag := by
  unfold storageName profileDb
  rw [String.append_assoc, stripPrefix_append, Option.bind_some, stripSuffix_append]
  rfl

theorem storageName_memory : storageName MEMORY = "default" := by decide

/-- A digit is neither a separator nor a dot. -/
theorem hexDigit_plain {n : Nat} (h : n < 16) : hexDigit n ≠ '/' ∧ hexDigit n ≠ '.' := by
  interval_cases n <;> decide

/-- **The characters of a hash** are digits. -/
theorem hexString_plain {bytes : Bytes} {c : Char} (hc : c ∈ (hexString bytes).toList) :
    c ≠ '/' ∧ c ≠ '.' := by
  unfold hexString at hc
  rw [String.toList_ofList] at hc
  obtain ⟨b, -, hcb⟩ := List.mem_flatMap.mp hc
  have hb := b.toNat_lt
  rcases List.mem_cons.mp hcb with rfl | hcb
  · exact hexDigit_plain (by omega)
  · rw [List.mem_singleton.mp hcb]
    exact hexDigit_plain (by omega)

theorem hexString_length (bytes : Bytes) : (hexString bytes).toList.length = 2 * bytes.length := by
  unfold hexString
  rw [String.toList_ofList, List.length_flatMap]
  simp only [List.length_cons, List.length_nil, List.map_const', List.sum_replicate]
  exact Nat.mul_comm _ _

/-- A tag is sixteen of them. -/
theorem tag_toList (H : Sha256) (password : String) : (tag H password).toList.length = 16 ∧
    ∀ c ∈ (tag H password).toList, c ≠ '/' ∧ c ≠ '.' := by
  unfold tag
  rw [String.toList_ofList]
  constructor
  · rw [List.length_take, hashHex, hexString_length, H.length_digest]
    rfl
  · exact fun c hc => hexString_plain (List.mem_of_mem_take hc)

/-- **A tag is one name of a path.** -/
theorem tag_isName (H : Sha256) (password : String) : IsName (tag H password) := by
  obtain ⟨hlen, hchars⟩ := tag_toList H password
  exact
    { ne_empty := fun h => by rw [h] at hlen; cases hlen
      ne_dot := fun h => by rw [h] at hlen; cases hlen
      ne_up := fun h => by rw [h] at hlen; cases hlen
      no_separator := fun h => (hchars _ h).1 rfl }

/-- A letter, a prefix, a tag and a suffix make one name. -/
theorem tagged_isName (H : Sha256) (password : String) {pre suf : String} {c : Char}
    {cs : List Char} (hpre : pre.toList = c :: cs) (hdot : c ≠ '.') (hclean : '/' ∉ pre.toList)
    (hclean' : '/' ∉ suf.toList) : IsName (pre ++ tag H password ++ suf) := by
  have htext : (pre ++ tag H password ++ suf).toList =
      pre.toList ++ ((tag H password).toList ++ suf.toList) := by
    rw [String.toList_append, String.toList_append, List.append_assoc]
  have hhead : (pre ++ tag H password ++ suf).toList =
      c :: (cs ++ ((tag H password).toList ++ suf.toList)) := by
    rw [htext, hpre, List.cons_append]
  refine isName_of_head hhead hdot ?_
  rw [htext]
  intro h
  rcases List.mem_append.mp h with h | h
  · exact hclean h
  · rcases List.mem_append.mp h with h | h
    · exact ((tag_toList H password).2 _ h).1 rfl
    · exact hclean' h

theorem profileDb_isName (H : Sha256) (password : String) : IsName (profileDb (tag H password)) :=
  @tagged_isName H password "alterchat_" ".db" _ _ rfl (by decide) (by decide) (by decide)

theorem profileKey_isName (H : Sha256) (password : String) : IsName (profileKey (tag H password)) :=
  @tagged_isName H password "keypair_" ".bin" _ _ rfl (by decide) (by decide) (by decide)

/-- The profile's directory, by password and mode. -/
def storageTag (H : Sha256) (password : String) (amnesic : Bool) : String :=
  if amnesic then "default" else tag H password

theorem storageName_dbPathOf (H : Sha256) (password : String) (amnesic : Bool) :
    storageName (dbPathOf H password amnesic) = storageTag H password amnesic := by
  cases amnesic with
  | true => exact storageName_memory
  | false => exact storageName_profileDb _

theorem default_isName : IsName "default" := ⟨by decide, by decide, by decide, by decide⟩

theorem storageTag_isName (H : Sha256) (password : String) (amnesic : Bool) :
    IsName (storageTag H password amnesic) := by
  cases amnesic with
  | true => exact default_isName
  | false => exact tag_isName H password

/-- **Where the storage root of a session lies.** -/
theorem storageRoot_place (H : Sha256) (password : String) (amnesic : Bool) :
    place (storageRootForDb (dbPathOf H password amnesic)) =
      ⟨.above 0, ["alterchat_storage", storageTag H password amnesic]⟩ := by
  unfold storageRootForDb
  rw [storageName_dbPathOf, (storageTag_isName H password amnesic).place_join_eq]
  rfl

end AlterChat.Profile
