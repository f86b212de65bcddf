import MuduoProtorpc.Foundation.Decimal
import MuduoProtorpc.Wire.RpcMessage
import MuduoProtorpc.WordFreq.Shuffle

/-!
# What a wordfreq worker is started with

`readKeys`, `createPeers` and `GetInfo` of `examples/wordfreq/wordfreq.cc`: the keys of the shard
file, the addresses of the peers, and what the worker tells about them. The text of an address is
read back by who asks for it (`fromText_toIpPort`), and a list of addresses is known by the text in
which each of them is followed by a comma (`peersText_injective`).

How the network library writes an ip address is a parameter, `IpNotation`.
-/

set_option autoImplicit false
set_option relaxedAutoImplicit false

namespace MuduoProtorpc.WordFreq

open Foundation Ascii

abbrev tab : UInt8 := 9
abbrev comma : UInt8 := 44
abbrev colon : UInt8 := 58

/-! ### The shard file -/

/-- The lines that `getline` gives, the last one with or without a newline behind it. -/
def getlines : Bytes → List Bytes
  | [] => []
  | char :: rest =>
    if char = newline then [] :: getlines rest
    else
      match getlines rest with
      | [] => [[char]]
      | line :: lines => (char :: line) :: lines

/-- The loop of `readKeys`: `keys_` and `maxKey_`. -/
def readLines : List Bytes → List ℤ × ℤ → List ℤ × ℤ
  | [], read => read
  | line :: rest, (keys, maxKey) =>
    match memchr tab line with
    | none => readLines rest (keys, maxKey)
    | some pos =>
      let key := (strtoll (line.drop pos)).1
      if key > 0 then readLines rest (keys ++ [key], if key > maxKey then key else maxKey)
      else readLines rest (keys, maxKey)

/-- `readKeys`, of a file with this content. -/
def readKeys (content : Bytes) : List ℤ × ℤ :=
  readLines (getlines content) ([], 0)

/-! ### Addresses -/

/-- How the network library writes the ip address that it has made of a text without a colon. -/
structure IpNotation where
  text : Bytes → Bytes
  colon_notMem : ∀ ip, colon ∉ ip → colon ∉ text ip
  comma_notMem : ∀ ip, colon ∉ ip → comma ∉ text ip
  text_text : ∀ ip, colon ∉ ip → text (text ip) = text ip

/-- `InetAddress`: an ip address, as it is written, and a port. -/
structure InetAddress where
  ip : Bytes
  port : ℕ
  deriving DecidableEq, Repr

/-- `toIpPort`. -/
def InetAddress.toIpPort (address : InetAddress) : Bytes :=
  address.ip ++ colon :: decimal address.port

/-- The address in a text `ip:port`, as far as the first colon and the number behind it go; none
without a colon. The number is converted to an `uint16_t`. -/
def InetAddress.fromText (format : IpNotation) (addr : Bytes) : Option InetAddress :=
  (memchr colon addr).map fun pos ↦
    { ip := format.text (addr.take pos)
      port := ((strtoll (addr.drop (pos + 1))).1 % 2 ^ 16).toNat }

/-- `createPeers`: what is no address is left out. -/
def createPeers (format : IpNotation) (peers : Bytes) : List InetAddress :=
  (peers.splitOn comma).filterMap (InetAddress.fromText format)

/-! ### What a worker tells -/

/-- What a worker was started with: the content of its shard file, and its list of peers. -/
structure Shard where
  file : Bytes
  peers : Bytes

/-- `GetInfoResponse`. -/
structure GetInfoResponse where
  ready : Bool
  maxKey : ℤ
  keyCount : ℕ
  peers : List Bytes
  deriving DecidableEq, Repr

/-- `keys_`. -/
def Shard.keys (shard : Shard) : List ℤ :=
  (readKeys shard.file).1

/-- `peerAddresses_`. -/
def Shard.addresses (shard : Shard) (format : IpNotation) : List InetAddress :=
  createPeers format shard.peers

/-- `isReady`, of so many peers, where the flags are the `connected_` of their clients. -/
def isReady (peers : ℕ) (connected : List Bool) : Bool :=
  (List.range peers).all fun index ↦ connected.getD index false

/-- `GetInfo`, when these clients are connected. -/
def getInfo (format : IpNotation) (shard : Shard) (connected : List Bool) : GetInfoResponse where
  ready := isReady (shard.addresses format).length connected
  maxKey := (readKeys shard.file).2
  keyCount := shard.keys.length
  peers := (shard.addresses format).map InetAddress.toIpPort

/-! ### Keys -/

/-- All keys are positive, and `maxKey_` is the greatest of them, whatever the lines are. -/
theorem readLines_spec (lines : List Bytes) {keys : List ℤ} (hpositive : ∀ key ∈ keys, 0 < key) :
    (∀ key ∈ (readLines lines (keys, maxKey keys)).1, 0 < key) ∧
      (readLines lines (keys, maxKey keys)).2 = maxKey (readLines lines (keys, maxKey keys)).1 := by
  induction lines generalizing keys with
  | nil => exact ⟨hpositive, rfl⟩
  | cons line rest ih =>
    simp only [readLines]
    split
    · exact ih hpositive
    · rename_i pos _
      by_cases hkey : (strtoll (line.drop pos)).1 > 0
      · have hmax : maxKey (keys ++ [(strtoll (line.drop pos)).1]) =
            if (strtoll (line.drop pos)).1 > maxKey keys then (strtoll (line.drop pos)).1
            else maxKey keys := by
          rw [maxKey, List.foldl_append]
          rfl
        rw [if_pos hkey, ← hmax]
        refine ih fun key hmem ↦ ?_
        rcases List.mem_append.mp hmem with hold | hnew
        · exact hpositive key hold
        · rw [List.mem_singleton.mp hnew]
          exact hkey
      · rw [if_neg hkey]
        exact ih hpositive

theorem maxKey_readKeys (shard : Shard) : (readKeys shard.file).2 = maxKey shard.keys := by
  have hnone : ∀ key ∈ ([] : List ℤ), 0 < key := List.forall_mem_nil _
  exact (readLines_spec (getlines shard.file) hnone).2

/-! ### The text of an address -/

section Addresses

variable {format : IpNotation} {shard : Shard} {address : InetAddress}

/-- An address that was read from a text. -/
structure InetAddress.WellFormed (format : IpNotation) (address : InetAddress) : Prop where
  colon_notMem : colon ∉ address.ip
  comma_notMem : comma ∉ address.ip
  text_ip : format.text address.ip = address.ip
  port_lt : address.port < 2 ^ 16

theorem wellFormed_of_fromText {addr : Bytes}
    (haddress : InetAddress.fromText format addr = some address) :
    address.WellFormed format := by
  obtain ⟨pos, hpos, rfl⟩ := Option.map_eq_some_iff.mp haddress
  have hcolon := notMem_take_of_memchr hpos
  exact {
    colon_notMem := format.colon_notMem _ hcolon
    comma_notMem := format.comma_notMem _ hcolon
    text_ip := format.text_text _ hcolon
    port_lt := by
      show ((_ : ℤ) % 2 ^ 16).toNat < 2 ^ 16
      omega }

theorem wellFormed_of_mem_addresses (haddress : address ∈ shard.addresses format) :
    address.WellFormed format := by
  obtain ⟨addr, -, hread⟩ := List.mem_filterMap.mp haddress
  exact wellFormed_of_fromText hread

/-- Who reads the text of an address has the address. -/
theorem fromText_toIpPort (haddress : address.WellFormed format) :
    InetAddress.fromText format address.toIpPort = some address := by
  have hpos : memchr colon address.toIpPort = some address.ip.length :=
    memchr_append _ haddress.colon_notMem
  have hip : address.toIpPort.take address.ip.length = address.ip := List.take_left' rfl
  have hport : address.toIpPort.drop (address.ip.length + 1) = decimal address.port := by
    rw [InetAddress.toIpPort, List.append_cons, List.drop_left' (by simp)]
  have hlt := haddress.port_lt
  have hend : Fails isDigit [] := fun _ hhead ↦ by cases hhead
  have hread := strtoll_decimal (lt_trans hlt (by decide : 2 ^ 16 < 2 ^ 63)) hend
  rw [List.append_nil] at hread
  rw [InetAddress.fromText, hpos, Option.map_some, hip, hport, hread, haddress.text_ip]
  have hvalue : ((address.port : ℤ) % 2 ^ 16).toNat = address.port := by omega
  rw [hvalue]

theorem comma_notMem_toIpPort (haddress : address.WellFormed format) :
    comma ∉ address.toIpPort := by
  rw [InetAddress.toIpPort, List.mem_append, List.mem_cons, not_or, not_or]
  refine ⟨haddress.comma_notMem, by decide, fun hmem ↦ ?_⟩
  have hdigit := isDigit_of_mem_decimal hmem
  revert hdigit
  decide

/-- The addresses, each with a comma behind it. -/
def peersText (addresses : List InetAddress) : Bytes :=
  (addresses.map fun address ↦ address.toIpPort ++ [comma]).flatten

theorem splitOn_peersText {addresses : List InetAddress}
    (haddresses : ∀ address ∈ addresses, address.WellFormed format) :
    (peersText addresses).splitOn comma = addresses.map InetAddress.toIpPort ++ [[]] := by
  induction addresses with
  | nil => rfl
  | cons address rest ih =>
    obtain ⟨haddress, hrest⟩ := List.forall_mem_cons.mp haddresses
    have hcons : peersText (address :: rest) = address.toIpPort ++ comma :: peersText rest := by
      simp [peersText]
    rw [hcons, List.splitOn_append_cons_self_of_not_mem (comma_notMem_toIpPort haddress), ih hrest]
    rfl

/-- A worker that is started with this text has these peers. -/
theorem createPeers_peersText {addresses : List InetAddress}
    (haddresses : ∀ address ∈ addresses, address.WellFormed format) :
    createPeers format (peersText addresses) = addresses := by
  rw [createPeers, splitOn_peersText haddresses, List.filterMap_append, List.filterMap_map]
  have hnone : List.filterMap (InetAddress.fromText format) [[]] = [] := rfl
  rw [hnone, List.append_nil]
  calc addresses.filterMap (InetAddress.fromText format ∘ InetAddress.toIpPort)
      = addresses.filterMap some :=
        List.filterMap_congr fun address hmem ↦ fromText_toIpPort (haddresses address hmem)
    _ = addresses := List.filterMap_some

theorem peersText_injective {first second : List InetAddress}
    (hfirst : ∀ address ∈ first, address.WellFormed format)
    (hsecond : ∀ address ∈ second, address.WellFormed format)
    (hsame : peersText first = peersText second) : first = second := by
  rw [← createPeers_peersText hfirst, hsame, createPeers_peersText hsecond]

end Addresses

end MuduoProtorpc.WordFreq
