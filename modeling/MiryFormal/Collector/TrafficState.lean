import Mathlib.Data.Prod.Lex
import Mathlib.Data.String.Basic
import Mathlib.Data.List.Sort
import MiryFormal.Contracts.Symbols
import MiryFormal.Shared.Fallible
import MiryFormal.Shared.Json

/-!
# The saved traffic of the public routes

`PublicTrafficRecorder` counts messages by symbol and minute and joins 60 consecutive minutes to a
block. The last 24 blocks are saved, and `_parse_blocks` reads them at the next start. What it
accepts are ordered blocks of 60 minutes with positive rates of exchange symbols, and such blocks
are read as they were saved.
-/

namespace MiryFormal

set_option autoImplicit false

structure MessageRateBlock where
  startMinute : Int
  endMinute : Int
  rates : List (String × Int)
  deriving DecidableEq

/-! ## The state file -/

def rateMember (rate : String × Int) : String × Json := (rate.1, .int rate.2)

def MessageRateBlock.document (block : MessageRateBlock) : Json :=
  .obj [("start_minute", .int block.startMinute), ("end_minute", .int block.endMinute),
    ("rates", .obj (block.rates.map rateMember))]

/-- What `_save` writes. -/
def statePayload (blocks : List MessageRateBlock) : Json :=
  .obj [("version", .int 1), ("blocks", .arr (blocks.map MessageRateBlock.document))]

section Parse
variable (text : SymbolText)

def parseRate (rates : List (String × Int)) (entry : String × Json) :
    Except String (List (String × Int)) :=
  match entry.2 with
  | .int rate =>
      if isExchangeSymbol text entry.1 = true ∧ 0 < rate then .ok (KeyedDict.set id entry.1 rate rates)
      else .error "public traffic state contains an invalid rate"
  | _ => .error "public traffic state contains an invalid rate"

/-- One round of the loop of `_parse_blocks`. -/
def parseBlock (previousEnd : Option Int) : Json → Except String MessageRateBlock
  | .obj members =>
      match (Json.member "start_minute" members).bind Json.asInt,
        (Json.member "end_minute" members).bind Json.asInt with
      | some start, some finish =>
          if finish - start ≠ 59 then .error "public traffic block must contain 60 minutes"
          else if ∃ previous ∈ previousEnd, start ≤ previous then
            .error "public traffic blocks must be ordered"
          else
            match Json.member "rates" members with
            | some (.obj rates) =>
                (rates.foldlM (parseRate text) []).map fun rates => ⟨start, finish, rates⟩
            | _ => .error "public traffic rates must be an object"
      | _, _ => .error "public traffic block minutes must be integers"
  | _ => .error "public traffic block must be an object"

def parseBlockList : Option Int → List Json → Except String (List MessageRateBlock)
  | _, [] => .ok []
  | previousEnd, value :: values => do
      let block ← parseBlock text previousEnd value
      let blocks ← parseBlockList (some block.endMinute) values
      return block :: blocks

def parseBlocks : Json → Except String (List MessageRateBlock)
  | .obj members =>
      if (Json.member "version" members).all (fun version => !version.isOne) then
        .error "unsupported public traffic state"
      else
        match Json.member "blocks" members with
        | some (.arr values) => parseBlockList text none values
        | _ => .error "public traffic blocks must be a list"
  | _ => .error "unsupported public traffic state"

end Parse

/-! ## Blocks that can be read -/

variable {text : SymbolText}

/-- 60 minutes, with positive rates under distinct symbols. -/
structure MessageRateBlock.Complete (block : MessageRateBlock) : Prop where
  minutes : block.endMinute = block.startMinute + 59
  distinct : KeyedDict.Distinct id block.rates
  positive : ∀ rate ∈ block.rates, 0 < rate.2

def MessageRateBlock.OfExchange (text : SymbolText) (block : MessageRateBlock) : Prop :=
  ∀ rate ∈ block.rates, isExchangeSymbol text rate.1 = true

/-- No block begins before the ones in front of it have ended. -/
def OrderedBlocks (blocks : List MessageRateBlock) : Prop :=
  blocks.Pairwise fun a b => a.endMinute < b.startMinute

theorem parseRates_ok {rates entries : List (String × Int)}
    (h : ∀ rate ∈ entries, isExchangeSymbol text rate.1 = true ∧ 0 < rate.2) :
    (entries.map rateMember).foldlM (parseRate text) rates =
      .ok (entries.foldl (fun rates rate => KeyedDict.set id rate.1 rate.2 rates) rates) := by
  induction entries generalizing rates with
  | nil => rfl
  | cons rate entries ih =>
    rw [List.map_cons, List.foldlM_cons, List.foldl_cons]
    apply bind_eq (if_pos (h rate List.mem_cons_self))
    exact ih fun later hm => h later (List.mem_cons_of_mem _ hm)

theorem parseBlock_document {previousEnd : Option Int} {block : MessageRateBlock}
    (hcomplete : block.Complete) (hexchange : block.OfExchange text)
    (hafter : ∀ previous ∈ previousEnd, previous < block.startMinute) :
    parseBlock text previousEnd block.document = .ok block := by
  have hminutes : ¬ block.endMinute - block.startMinute ≠ 59 := by
    have hend := hcomplete.minutes
    omega
  have hordered : ¬ ∃ previous ∈ previousEnd, block.startMinute ≤ previous := by
    intro ⟨previous, hm, hle⟩
    have hless := hafter previous hm
    omega
  have hrates : (block.rates.map rateMember).foldlM (parseRate text) [] = .ok block.rates := by
    rw [parseRates_ok fun rate hm => ⟨hexchange rate hm, hcomplete.positive rate hm⟩,
      KeyedDict.foldl_set hcomplete.distinct, List.nil_append]
  unfold MessageRateBlock.document parseBlock
  simp only [Json.member_cons, reduceIte, String.reduceEq, Option.bind_some, Json.asInt]
  rw [if_neg hminutes, if_neg hordered]
  simp only [hrates, Except.map]

/-- A rate that is accepted belongs to an exchange symbol and is positive. -/
theorem parseRate_spec {rates out : List (String × Int)} {entry : String × Json}
    (h : parseRate text rates entry = .ok out) :
    ∃ rate, isExchangeSymbol text entry.1 = true ∧ 0 < rate ∧
      out = KeyedDict.set id entry.1 rate rates := by
  unfold parseRate at h
  split at h
  · rename_i rate _
    split at h
    · rename_i hvalid
      cases h
      exact ⟨rate, hvalid.1, hvalid.2, rfl⟩
    · cases h
  · cases h

theorem rates_of_parse {entries : List (String × Json)} {rates out : List (String × Int)}
    (h : entries.foldlM (parseRate text) rates = .ok out) (hdistinct : KeyedDict.Distinct id rates)
    (hrates : ∀ rate ∈ rates, isExchangeSymbol text rate.1 = true ∧ 0 < rate.2) :
    KeyedDict.Distinct id out ∧ ∀ rate ∈ out, isExchangeSymbol text rate.1 = true ∧ 0 < rate.2 := by
  induction entries generalizing rates with
  | nil =>
    cases h
    exact ⟨hdistinct, hrates⟩
  | cons entry entries ih =>
    rw [List.foldlM_cons] at h
    obtain ⟨next, hfirst, hrest⟩ := exists_of_bind_ok h
    obtain ⟨rate, hsymbol, hpositive, rfl⟩ := parseRate_spec hfirst
    apply ih hrest (KeyedDict.distinct_set hdistinct _ _)
    intro later hm
    cases KeyedDict.mem_set hm with
    | inl hold => exact hrates later hold
    | inr hnew =>
      obtain ⟨hkey, hvalue⟩ := hnew
      rw [id, id] at hkey
      rw [hkey, hvalue]
      exact ⟨hsymbol, hpositive⟩

theorem parseBlock_spec {previousEnd : Option Int} {value : Json} {block : MessageRateBlock}
    (h : parseBlock text previousEnd value = .ok block) :
    block.Complete ∧ block.OfExchange text ∧
      ∀ previous ∈ previousEnd, previous < block.startMinute := by
  unfold parseBlock at h
  split at h
  · split at h
    · rename_i start finish _ _
      split at h
      · cases h
      · rename_i hminutes
        split at h
        · cases h
        · rename_i hordered
          split at h
          · rename_i entries _
            obtain ⟨rates, hrates, rfl⟩ := exists_of_map_ok h
            obtain ⟨hdistinct, hvalid⟩ := rates_of_parse hrates List.nodup_nil
              fun _ hm => absurd hm List.not_mem_nil
            refine ⟨⟨?_, hdistinct, fun rate hm => (hvalid rate hm).2⟩,
              fun rate hm => (hvalid rate hm).1, ?_⟩
            · dsimp only
              omega
            · intro previous hm
              by_contra hless
              exact hordered ⟨previous, hm, not_lt.mp hless⟩
          · cases h
    · cases h
  · cases h

/-- Every block of a list is read back, under the end of the block before it. -/
theorem parseBlockList_documents {previousEnd : Option Int} {blocks : List MessageRateBlock}
    (hordered : OrderedBlocks blocks) (hcomplete : ∀ block ∈ blocks, block.Complete)
    (hexchange : ∀ block ∈ blocks, block.OfExchange text)
    (hafter : ∀ previous ∈ previousEnd, ∀ block ∈ blocks, previous < block.startMinute) :
    parseBlockList text previousEnd (blocks.map MessageRateBlock.document) = .ok blocks := by
  induction blocks generalizing previousEnd with
  | nil => rfl
  | cons block blocks ih =>
    obtain ⟨hfirst, hrest⟩ := List.pairwise_cons.mp hordered
    rw [List.map_cons, parseBlockList]
    apply bind_eq (parseBlock_document (hcomplete block List.mem_cons_self)
      (hexchange block List.mem_cons_self) fun previous hm => hafter previous hm block
        List.mem_cons_self)
    apply bind_eq (ih hrest (fun later hm => hcomplete later (List.mem_cons_of_mem _ hm))
      (fun later hm => hexchange later (List.mem_cons_of_mem _ hm)) ?_) rfl
    intro previous hm later hlater
    cases hm
    exact hfirst later hlater

theorem parseBlockList_spec {previousEnd : Option Int} {values : List Json}
    {blocks : List MessageRateBlock} (h : parseBlockList text previousEnd values = .ok blocks) :
    OrderedBlocks blocks ∧ (∀ block ∈ blocks, block.Complete ∧ block.OfExchange text) ∧
      ∀ previous ∈ previousEnd, ∀ block ∈ blocks, previous < block.startMinute := by
  induction values generalizing previousEnd blocks with
  | nil =>
    cases h
    exact ⟨.nil, fun _ hm => absurd hm List.not_mem_nil, fun _ _ _ hm => absurd hm List.not_mem_nil⟩
  | cons value values ih =>
    rw [parseBlockList] at h
    obtain ⟨block, hblock, h⟩ := exists_of_bind_ok h
    obtain ⟨rest, hrest, h⟩ := exists_of_bind_ok h
    cases h
    obtain ⟨hcomplete, hexchange, hafter⟩ := parseBlock_spec hblock
    obtain ⟨hordered, hall, hlater⟩ := ih hrest
    refine ⟨List.pairwise_cons.mpr ⟨hlater _ rfl, hordered⟩, ?_, ?_⟩
    · intro other hm
      cases List.mem_cons.mp hm with
      | inl hsame =>
        subst hsame
        exact ⟨hcomplete, hexchange⟩
      | inr hm => exact hall other hm
    · intro previous hm other hother
      have hfirst := hafter previous hm
      cases List.mem_cons.mp hother with
      | inl hsame =>
        subst hsame
        exact hfirst
      | inr hin =>
        have hnext := hlater _ rfl other hin
        have hminutes := hcomplete.minutes
        omega

theorem parseBlocks_spec {payload : Json} {blocks : List MessageRateBlock}
    (h : parseBlocks text payload = .ok blocks) :
    OrderedBlocks blocks ∧ ∀ block ∈ blocks, block.Complete ∧ block.OfExchange text := by
  unfold parseBlocks at h
  split at h
  · split at h
    · cases h
    · split at h
      · obtain ⟨hordered, hall, -⟩ := parseBlockList_spec h
        exact ⟨hordered, hall⟩
      · cases h
  · cases h

/-- Blocks are read as they were saved exactly when they are ordered blocks of the exchange. -/
theorem parseBlocks_statePayload {blocks : List MessageRateBlock} :
    parseBlocks text (statePayload blocks) = .ok blocks ↔
      OrderedBlocks blocks ∧ ∀ block ∈ blocks, block.Complete ∧ block.OfExchange text := by
  refine ⟨parseBlocks_spec, ?_⟩
  intro ⟨hordered, hall⟩
  have hstart : ∀ previous ∈ (none : Option Int), ∀ block ∈ blocks, previous < block.startMinute := by
    intro previous hm
    cases hm
  exact parseBlockList_documents hordered (fun block hm => (hall block hm).1)
    (fun block hm => (hall block hm).2) hstart

/-- `blocks[-24:]` -/
def lastBlocks (blocks : List MessageRateBlock) : List MessageRateBlock :=
  blocks.drop (blocks.length - 24)

/-- `_load`: a missing or an invalid file is no evidence. -/
def loadBlocks (text : SymbolText) (file : Option Json) : List MessageRateBlock :=
  match file with
  | none => []
  | some payload =>
      match parseBlocks text payload with
      | .ok blocks => lastBlocks blocks
      | .error _ => []

theorem lastBlocks_sublist (blocks : List MessageRateBlock) :
    (lastBlocks blocks).Sublist blocks := List.drop_sublist _ _

theorem length_lastBlocks (blocks : List MessageRateBlock) : (lastBlocks blocks).length ≤ 24 := by
  unfold lastBlocks
  rw [List.length_drop]
  omega

theorem lastBlocks_append (front : List MessageRateBlock) {back : List MessageRateBlock}
    (h : back.length ≤ 24) :
    lastBlocks (front ++ back) = front.drop (front.length + back.length - 24) ++ back := by
  unfold lastBlocks
  rw [List.length_append, List.drop_append_of_le_length (by omega)]

theorem loadBlocks_spec (text : SymbolText) (file : Option Json) :
    OrderedBlocks (loadBlocks text file) ∧ (loadBlocks text file).length ≤ 24 ∧
      ∀ block ∈ loadBlocks text file, block.Complete ∧ block.OfExchange text := by
  unfold loadBlocks
  split
  · exact ⟨.nil, Nat.zero_le _, fun _ hm => absurd hm List.not_mem_nil⟩
  · split
    · rename_i blocks hparse
      obtain ⟨hordered, hall⟩ := parseBlocks_spec hparse
      exact ⟨hordered.sublist (lastBlocks_sublist blocks), length_lastBlocks blocks,
        fun block hm => hall block ((lastBlocks_sublist blocks).subset hm)⟩
    · exact ⟨.nil, Nat.zero_le _, fun _ hm => absurd hm List.not_mem_nil⟩

end MiryFormal
