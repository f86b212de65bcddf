import Mathlib.Data.List.Chain
import Mathlib.Data.List.Nodup
import MuduoProtorpc.GoRpc.ServerCodec

/-!
# The names in generated Go code

`generateService` of `go/protoc-gen-go/genrpc/plugin.go` writes an interface, a function that
registers an implementation of it with `net/rpc`, and a client. The methods of the interface have
the names that `generator.CamelCase` makes of those in the descriptor; the client passes the names
of the descriptor to `Call`. A call arrives at its method if and only if these are the same
(`namesAgree_iff`). Every client also has a method `Close`, so that a service with a method of that
name gives a client that Go does not compile (`distinctMethods_iff`).

`CamelCase` is a function of goprotobuf and a parameter here. `camelCase` follows its
documentation: an underscore in front of a lower case letter is dropped and the letter made upper
case, so that `_my_field_name_2` becomes `XMyFieldName_2`.
-/

set_option autoImplicit false
set_option relaxedAutoImplicit false

namespace MuduoProtorpc.GoRpc

/-! ### The generator -/

/-- `ServiceDescriptorProto`, with the package of its file: the names of the service and of its
methods. -/
structure ServiceDescriptor where
  package : Option String
  name : String
  method : List String

/-- What a method of a generated client does: it closes the connection, or passes a string to
`Call`. -/
inductive ClientMethod
  | close
  | call (serviceMethod : String)

/-- The code that is generated for a service: the name under which an implementation is registered,
the methods of the interface, and those of the client, each with what it does. -/
structure GeneratedService where
  registered : String
  interface : List String
  client : List (String × ClientMethod)

/-- `full_name`. -/
def ServiceDescriptor.fullName (descriptor : ServiceDescriptor) : String :=
  match descriptor.package with
  | some package => package ++ "." ++ descriptor.name
  | none => descriptor.name

/-- `generateService`, as far as names are concerned. -/
def generateService (camelCase : String → String) (descriptor : ServiceDescriptor) :
    GeneratedService where
  registered := descriptor.fullName
  interface := descriptor.method.map camelCase
  client := ("Close", .close) :: descriptor.method.map fun method ↦
    (camelCase method, .call (descriptor.fullName ++ "." ++ method))

/-- No two methods of the interface have one name, and no two of the client. Go with two does not
compile. -/
def GeneratedService.DistinctMethods (generated : GeneratedService) : Prop :=
  generated.interface.Nodup ∧ (generated.client.map Prod.fst).Nodup

/-- The methods of the client are distinct if those of the service stay so, and none of them becomes
`Close`. -/
theorem distinctMethods_iff {camelCase : String → String} {descriptor : ServiceDescriptor} :
    (generateService camelCase descriptor).DistinctMethods ↔
      (descriptor.method.map camelCase).Nodup ∧
        ∀ method ∈ descriptor.method, camelCase method ≠ "Close" := by
  have hclient : (generateService camelCase descriptor).client.map Prod.fst =
      "Close" :: descriptor.method.map camelCase := by
    simp [generateService, Function.comp_def]
  rw [GeneratedService.DistinctMethods, hclient, List.nodup_cons, List.mem_map]
  constructor
  · rintro ⟨hinterface, hclose, -⟩
    exact ⟨hinterface, fun method hmethod hname ↦ hclose ⟨method, hmethod, hname⟩⟩
  · rintro ⟨hinterface, hclose⟩
    exact ⟨hinterface, fun ⟨method, hmethod, hname⟩ ↦ hclose method hmethod hname, hinterface⟩

/-! ### A call -/

/-- What `ClientCodec.WriteRequest` does: it sends a message, returns an error, or panics. -/
inductive WriteOutcome
  | sent (msg : RpcMessage)
  | error (text : String)
  | panic (text : String)

/-- `ClientCodec.WriteRequest`, up to the message that `Send` gets. The body is the
`proto.Message` that it holds, if it holds one. -/
def writeRequest {Message : Type} (marshal : Message → Except String Bytes) (r : RequestHeader)
    (body : Option Message) : WriteOutcome :=
  match splitAtLastDot r.serviceMethod with
  | none => .panic ("Invalid ServiceMethod '" ++ r.serviceMethod ++ "'")
  | some (service, method) =>
    match body with
    | none => .error "not a protobuf Message"
    | some pb =>
      match marshal pb with
      | .error err => .error err
      | .ok bytes => .sent {
          type := some .request
          id := some r.seq
          service := some service
          method := some method
          request := some bytes }

/-- A name that is exported by its package: it starts with an upper case letter. -/
def isExported (name : String) : Bool :=
  name.toList.head?.any Char.isUpper

/-- `rpc.RegisterName`: the exported methods of an implementation are registered under their
names. -/
def registerName {Message : Type} (name : String) (methods : List String)
    (argument : String → Option (Bytes → Message × Option String)) :
    RpcServices String Message where
  serviceMap := fun service ↦
    if service = name then
      some fun method ↦ if method ∈ methods ∧ isExported method then some method else none
    else none
  argument := argument

/-- A name as the language of descriptors has them. -/
def LegalName (name : String) : Prop :=
  ∃ first rest, name.toList = first :: rest ∧ (first.isAlpha ∨ first = '_') ∧
    ∀ letter ∈ rest, letter.isAlphanum ∨ letter = '_'

/-- Every method of the generated client that makes a call calls the method of the same name of the
implementation, whichever it is: what it passes to `Call` is split by `WriteRequest`, put together
again by `ReadRequestHeader`, and found by the server. -/
def NamesAgree (camelCase : String → String) (descriptor : ServiceDescriptor) : Prop :=
  ∀ (methods : List String), (generateService camelCase descriptor).interface ⊆ methods →
    ∀ goName serviceMethod,
      (goName, .call serviceMethod) ∈ (generateService camelCase descriptor).client →
      ∀ (Message : Type) (argument : String → Option (Bytes → Message × Option String))
        (marshal : Message → Except String Bytes) (seq : BitVec 64) (req : Message) (bytes : Bytes),
        marshal req = .ok bytes → ∃ msg header,
          writeRequest marshal { serviceMethod := serviceMethod, seq := seq } (some req) =
            .sent msg ∧
            requestFields msg = some (header, some bytes) ∧
              route (registerName (generateService camelCase descriptor).registered methods
                argument) header.serviceMethod = .ok goName

section Calls

variable {Message : Type} {service name : String}

theorem LegalName.not_dot (hlegal : LegalName name) : '.' ∉ name.toList := by
  obtain ⟨first, rest, hname, hfirst, hrest⟩ := hlegal
  rw [hname]
  intro hdot
  rcases List.mem_cons.mp hdot with rfl | hlater
  · revert hfirst
    decide
  · have hletter := hrest '.' hlater
    revert hletter
    decide

/-- A name without dots is what is found behind the last dot. -/
theorem splitAtLastDot_append (service : String) (hdot : '.' ∉ name.toList) :
    splitAtLastDot (service ++ "." ++ name) = some (service, name) := by
  have hchars : (service ++ "." ++ name).toList.reverse =
      name.toList.reverse ++ '.' :: service.toList.reverse := by
    simp [String.toList_append]
  have hspan : (name.toList.reverse ++ '.' :: service.toList.reverse).span (fun c ↦ c ≠ '.') =
      (name.toList.reverse, '.' :: service.toList.reverse) := by
    have hname : ∀ c ∈ name.toList.reverse, decide (c ≠ '.') = true := by
      intro c hc
      refine decide_eq_true ?_
      rintro rfl
      exact hdot (List.mem_reverse.mp hc)
    rw [List.span_eq_takeWhile_dropWhile, List.takeWhile_append_of_pos hname,
      List.dropWhile_append_of_pos hname]
    simp
  unfold splitAtLastDot
  rw [hchars, hspan]
  simp

/-- The server resolves a name if and only if the implementation exports a method with it. -/
theorem route_registerName (hdot : '.' ∉ name.toList) (methods : List String)
    (argument : String → Option (Bytes → Message × Option String)) (method : String) :
    route (registerName service methods argument) (service ++ "." ++ name) = .ok method ↔
      name = method ∧ name ∈ methods ∧ isExported name = true := by
  unfold route
  rw [splitAtLastDot_append service hdot]
  simp only [registerName, if_pos]
  by_cases hfound : name ∈ methods ∧ isExported name = true
  · rw [if_pos hfound]
    simp [hfound]
  · rw [if_neg hfound]
    simp [hfound]

/-- The message of a call says what was split, and the server puts it together again. -/
theorem requestFields_writeRequest (service : String) (hdot : '.' ∉ name.toList)
    {marshal : Message → Except String Bytes} (seq : BitVec 64) {req : Message} {bytes : Bytes}
    (hmarshal : marshal req = .ok bytes) : ∃ msg,
      writeRequest marshal { serviceMethod := service ++ "." ++ name, seq := seq } (some req) =
        .sent msg ∧
      requestFields msg =
        some ({ serviceMethod := service ++ "." ++ name, seq := seq }, some bytes) := by
  unfold writeRequest
  rw [splitAtLastDot_append service hdot]
  simp only [hmarshal]
  exact ⟨_, rfl, rfl⟩

end Calls

/-- Where a generated client and a generated server agree, no method is renamed. -/
theorem NamesAgree.camelCase_eq {camelCase : String → String} {descriptor : ServiceDescriptor}
    (hagree : NamesAgree camelCase descriptor) {method : String}
    (hmethod : method ∈ descriptor.method) (hlegal : LegalName method) :
    camelCase method = method := by
  have hdot := hlegal.not_dot
  obtain ⟨msg, header, hwrite, hfields, hroute⟩ := hagree _ (List.Subset.refl _)
    (camelCase method) (descriptor.fullName ++ "." ++ method)
    (List.mem_cons_of_mem _ (List.mem_map.mpr ⟨method, hmethod, rfl⟩)) Unit (fun _ ↦ none)
    (fun _ ↦ .ok []) 0 () [] rfl
  obtain ⟨sent, hsent, hsentFields⟩ := requestFields_writeRequest descriptor.fullName hdot 0
    (show (fun _ : Unit ↦ (.ok [] : Except String Bytes)) () = .ok [] from rfl)
  obtain rfl := WriteOutcome.sent.inj (hwrite.symm.trans hsent)
  obtain ⟨rfl, -⟩ := Prod.mk.inj (Option.some.inj (hfields.symm.trans hsentFields))
  exact ((route_registerName hdot _ _ _).mp hroute).1.symm

/-- The generated client and the generated server agree if and only if `CamelCase` leaves the names
of all methods as they are. -/
theorem namesAgree_iff {camelCase : String → String} {descriptor : ServiceDescriptor}
    (hcamelCase : ∀ name, LegalName name → isExported (camelCase name) = true)
    (hlegal : ∀ method ∈ descriptor.method, LegalName method) :
    NamesAgree camelCase descriptor ↔
      ∀ method ∈ descriptor.method, camelCase method = method := by
  constructor
  · intro hagree method hmethod
    exact hagree.camelCase_eq hmethod (hlegal method hmethod)
  · intro hsame methods himplements goName serviceMethod hcall Message argument marshal seq req
      bytes hmarshal
    have hmade := (List.mem_cons.mp hcall).resolve_left (by simp)
    obtain ⟨method, hmethod, heq⟩ := List.mem_map.mp hmade
    obtain ⟨rfl, hstring⟩ := Prod.mk.inj heq
    obtain rfl := ClientMethod.call.inj hstring
    have hdot := (hlegal method hmethod).not_dot
    obtain ⟨msg, hwrite, hfields⟩ :=
      requestFields_writeRequest descriptor.fullName hdot seq hmarshal
    have hnamed := hsame method hmethod
    refine ⟨msg, _, hwrite, hfields, (route_registerName hdot methods argument _).mpr ?_⟩
    refine ⟨hnamed.symm, himplements ?_, ?_⟩
    · exact List.mem_map.mpr ⟨method, hmethod, hnamed⟩
    · have hexported := hcamelCase method (hlegal method hmethod)
      rwa [hnamed] at hexported

/-! ### `CamelCase` of goprotobuf -/

/-- The loop of `CamelCase`: it goes through the words of a name, which begin with an upper case
letter or behind an underscore or a digit, and makes the first letter of each upper case. -/
def camelWords (inWord : Bool) : List Char → List Char
  | [] => []
  | letter :: rest =>
    if inWord = true ∧ letter.isLower = true then letter :: camelWords true rest
    else if letter = '_' ∧ rest.head?.any Char.isLower = true then camelWords false rest
    else if letter.isDigit then letter :: camelWords false rest
    else letter.toUpper :: camelWords true rest

/-- `CamelCase`: a leading underscore becomes the capital letter that a name needs. -/
def camelCase (name : String) : String :=
  match name.toList with
  | '_' :: rest => String.ofList ('X' :: camelWords false rest)
  | letters => String.ofList (camelWords false letters)

/-- The name starts with an upper case letter, and a lower case letter is behind another letter. -/
def Capitalized (name : String) : Prop :=
  isExported name = true ∧
    name.toList.IsChain fun before letter ↦ letter.isLower = true → before.isAlpha = true

section CamelCase

variable {name : String} {letter : Char}

-- Batteries has facts like these on letters, in a module that only the whole of Mathlib imports.
theorem isUpper_iff : letter.isUpper = true ↔ 65 ≤ letter.toNat ∧ letter.toNat ≤ 90 := by
  have hrange : letter.isUpper = decide (65 ≤ letter.val ∧ letter.val ≤ 90) := rfl
  rw [hrange, decide_eq_true_eq, UInt32.le_iff_toNat_le, UInt32.le_iff_toNat_le]
  exact Iff.rfl

theorem isLower_iff : letter.isLower = true ↔ 97 ≤ letter.toNat ∧ letter.toNat ≤ 122 := by
  have hrange : letter.isLower = (decide (97 ≤ letter.val) && decide (letter.val ≤ 122)) := rfl
  rw [hrange, Bool.and_eq_true, decide_eq_true_eq, decide_eq_true_eq, UInt32.le_iff_toNat_le,
    UInt32.le_iff_toNat_le]
  exact Iff.rfl

theorem isAlpha_iff :
    letter.isAlpha = true ↔ letter.isUpper = true ∨ letter.isLower = true := by
  have hletters : letter.isAlpha = (letter.isUpper || letter.isLower) := rfl
  rw [hletters, Bool.or_eq_true]

theorem not_isDigit_of_isAlpha (halpha : letter.isAlpha = true) : letter.isDigit = false := by
  rw [← Bool.not_eq_true, Char.isDigit_iff_toNat]
  have hnine : '9'.toNat = 57 := rfl
  rw [isAlpha_iff, isUpper_iff, isLower_iff] at halpha
  omega

theorem not_isAlpha_of_isDigit (hdigit : letter.isDigit = true) :
    letter.isAlpha = false ∧ letter.isLower = false := by
  have hnotAlpha : ¬ letter.isAlpha = true := by
    intro halpha
    rw [not_isDigit_of_isAlpha halpha] at hdigit
    cases hdigit
  refine ⟨Bool.not_eq_true _ ▸ hnotAlpha, ?_⟩
  rw [← Bool.not_eq_true]
  exact fun hlower ↦ hnotAlpha (isAlpha_iff.mpr (Or.inr hlower))

theorem isUpper_iff_of_isAlpha (halpha : letter.isAlpha = true) :
    letter.isUpper = true ↔ letter.isLower = false := by
  rw [← Bool.not_eq_true]
  rw [isAlpha_iff] at halpha
  rw [isUpper_iff, isLower_iff] at halpha ⊢
  omega

theorem toUpper_of_not_isLower (hlower : letter.isLower = false) : letter.toUpper = letter := by
  refine dif_neg fun hrange ↦ ?_
  rw [← Bool.not_eq_true, isLower_iff] at hlower
  exact hlower hrange

theorem isUpper_toUpper (halpha : letter.isAlpha = true) : letter.toUpper.isUpper = true := by
  cases hlower : letter.isLower with
  | false =>
    rw [toUpper_of_not_isLower hlower]
    exact (isUpper_iff_of_isAlpha halpha).mpr hlower
  | true =>
    rw [isLower_iff] at hlower
    have hrange : 'a'.val ≤ letter.val ∧ letter.val ≤ 'z'.val := hlower
    have hval : letter.toUpper.val = letter.val + ('A'.val - 'a'.val) := by
      delta Char.toUpper
      rw [dif_pos hrange]
    have hstep : ('A'.val - 'a'.val).toNat = 2 ^ 32 - 32 := by decide
    have hnat : letter.toUpper.toNat = (letter.toNat + (2 ^ 32 - 32)) % 2 ^ 32 := by
      rw [← Char.toNat_val, hval, UInt32.toNat_add, hstep, Char.toNat_val]
    rw [isUpper_iff]
    omega

/-- The letters that are their own upper case letters. -/
theorem toUpper_eq_self_iff : letter.toUpper = letter ↔ letter.isLower = false := by
  refine ⟨fun hsame ↦ ?_, toUpper_of_not_isLower⟩
  by_contra hlower
  rw [Bool.not_eq_false] at hlower
  have halpha := isAlpha_iff.mpr (Or.inr hlower)
  have hupper := isUpper_toUpper halpha
  rw [hsame, isUpper_iff_of_isAlpha halpha, hlower] at hupper
  cases hupper

/-- A name that starts with a letter is taken as it is. -/
theorem camelCase_of_isAlpha {first : Char} {rest : List Char}
    (hname : name.toList = first :: rest) (halpha : first.isAlpha = true) : first ≠ '_' ∧
      camelCase name = String.ofList (camelWords false (first :: rest)) := by
  have hne : first ≠ '_' := by
    rintro rfl
    revert halpha
    decide
  refine ⟨hne, ?_⟩
  unfold camelCase
  rw [hname]
  split
  · rename_i heq
    exact absurd (List.cons.inj heq).1 hne
  · rfl

/-- What `CamelCase` makes of a legal name is exported. -/
theorem isExported_camelCase (hlegal : LegalName name) : isExported (camelCase name) = true := by
  obtain ⟨first, rest, hname, hfirst, -⟩ := hlegal
  rcases hfirst with halpha | rfl
  · obtain ⟨hne, hcamel⟩ := camelCase_of_isAlpha hname halpha
    rw [hcamel, isExported, camelWords]
    simp [hne, not_isDigit_of_isAlpha halpha, isUpper_toUpper halpha]
  · unfold camelCase isExported
    rw [hname]
    simp

theorem length_camelWords_le (inWord : Bool) (letters : List Char) :
    (camelWords inWord letters).length ≤ letters.length := by
  induction letters generalizing inWord with
  | nil => exact Nat.le_refl 0
  | cons letter rest ih =>
    rw [camelWords]
    split_ifs
    · exact Nat.succ_le_succ (ih true)
    · exact Nat.le_succ_of_le (ih false)
    · exact Nat.succ_le_succ (ih false)
    · exact Nat.succ_le_succ (ih true)

/-- The loop leaves letters as they are if and only if no word begins with a lower case letter. -/
theorem camelWords_eq_self_iff {letters : List Char}
    (hlegal : ∀ letter ∈ letters, letter.isAlphanum = true ∨ letter = '_') (inWord : Bool) :
    camelWords inWord letters = letters ↔
      (inWord = false → ∀ first ∈ letters.head?, first.isLower = false) ∧
        letters.IsChain fun before letter ↦ letter.isLower = true → before.isAlpha = true := by
  induction letters generalizing inWord with
  | nil => simp [camelWords]
  | cons letter rest ih =>
    have hrest := fun later hlater ↦ hlegal later (List.mem_cons_of_mem letter hlater)
    rw [camelWords, List.isChain_cons]
    split_ifs with hword hdropped hdigit
    · obtain ⟨rfl, hlower⟩ := hword
      have halpha := isAlpha_iff.mpr (Or.inr hlower)
      rw [List.cons_inj_right, ih hrest]
      simp [halpha]
    · obtain ⟨rfl, hany⟩ := hdropped
      constructor
      · intro hsame
        have hlength := length_camelWords_le false rest
        rw [hsame, List.length_cons] at hlength
        omega
      · rintro ⟨-, hfirst, -⟩
        obtain ⟨next, hnext, hlower⟩ := Option.any_eq_true _ _ |>.mp hany
        exact absurd (hfirst next hnext hlower) (by decide)
    · obtain ⟨hnotAlpha, hnotLower⟩ := not_isAlpha_of_isDigit hdigit
      rw [List.cons_inj_right, ih hrest]
      simp [hnotAlpha, hnotLower]
    · by_cases hlower : letter.isLower = true
      · have hstart : inWord = false := by
          by_contra hin
          exact hword ⟨Bool.not_eq_false _ ▸ hin, hlower⟩
        constructor
        · intro hsame
          rw [toUpper_eq_self_iff.mp (List.cons.inj hsame).1] at hlower
          cases hlower
        · rintro ⟨hfirst, -⟩
          rw [hfirst hstart letter rfl] at hlower
          cases hlower
      · have hletter : ∀ next ∈ rest.head?, next.isLower = true → letter.isAlpha = true := by
          intro next hnext hnextLower
          rcases hlegal letter List.mem_cons_self with hlegal | hunderscore
          · simpa [Char.isAlphanum, hdigit] using hlegal
          · exact absurd ⟨hunderscore, Option.any_eq_true _ _ |>.mpr ⟨next, hnext, hnextLower⟩⟩
              hdropped
        rw [Bool.not_eq_true] at hlower
        rw [toUpper_of_not_isLower hlower, List.cons_inj_right, ih hrest]
        constructor
        · rintro ⟨-, hchain⟩
          refine ⟨fun _ first hfirst ↦ ?_, hletter, hchain⟩
          obtain rfl : letter = first := Option.some.inj hfirst
          exact hlower
        · rintro ⟨-, -, hchain⟩
          exact ⟨fun hfalse ↦ absurd hfalse (by decide), hchain⟩

/-- `CamelCase` leaves the names as they are that are capitalized. -/
theorem camelCase_eq_self_iff (hlegal : LegalName name) :
    camelCase name = name ↔ Capitalized name := by
  obtain ⟨first, rest, hname, hfirst, hrest⟩ := hlegal
  have hstring (letters : List Char) :
      String.ofList letters = name ↔ letters = first :: rest := by
    rw [← hname]
    constructor
    · rintro rfl
      simp
    · rintro rfl
      simp
  rcases hfirst with halpha | rfl
  · obtain ⟨-, hcamel⟩ := camelCase_of_isAlpha hname halpha
    have hletters : ∀ letter ∈ first :: rest, letter.isAlphanum = true ∨ letter = '_' := by
      intro letter hletter
      rcases List.mem_cons.mp hletter with rfl | hlater
      · exact Or.inl (by simp [Char.isAlphanum, halpha])
      · exact hrest letter hlater
    rw [hcamel, hstring, camelWords_eq_self_iff hletters, Capitalized, isExported, hname]
    simp [isUpper_iff_of_isAlpha halpha]
  · have hcamel : camelCase name = String.ofList ('X' :: camelWords false rest) := by
      unfold camelCase
      rw [hname]
      simp
    rw [hcamel, hstring, Capitalized, isExported, hname]
    constructor
    · intro hsame
      exact absurd (List.cons.inj hsame).1 (by decide)
    · rintro ⟨hexported, -⟩
      exact absurd hexported Bool.false_ne_true

end CamelCase

/-- The service of `examples/nqueens/nqueens.proto`. -/
def nqueensService : ServiceDescriptor where
  package := some "nqueens"
  name := "NQueensService"
  method := ["Solve"]

/-- The service of `examples/collect/collect.proto`: its methods start with a lower case letter. -/
def collectService : ServiceDescriptor where
  package := some "collect"
  name := "CollectService"
  method := ["getSnapshot", "flushFile", "rollFile", "version", "quit", "restart"]

theorem nqueensService_legal : ∀ method ∈ nqueensService.method, LegalName method := by
  intro method hmethod
  obtain rfl := List.mem_singleton.mp hmethod
  exact ⟨'S', ['o', 'l', 'v', 'e'], by decide, by decide, by simp⟩

/-- The client and the server of `NQueensService` agree. -/
theorem namesAgree_nqueens : NamesAgree camelCase nqueensService := by
  apply (namesAgree_iff (fun _ ↦ isExported_camelCase) nqueensService_legal).mpr
  decide

/-- Those of `CollectService` do not: the client calls `getSnapshot` where the server has
`GetSnapshot`. -/
theorem not_namesAgree_collect : ¬ NamesAgree camelCase collectService := by
  intro hagree
  have hlegal : LegalName "getSnapshot" :=
    ⟨'g', ['e', 't', 'S', 'n', 'a', 'p', 's', 'h', 'o', 't'], by decide, by decide, by simp⟩
  have hsame := hagree.camelCase_eq (show "getSnapshot" ∈ collectService.method by decide) hlegal
  revert hsame
  decide

end MuduoProtorpc.GoRpc
