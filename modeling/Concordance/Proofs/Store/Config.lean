import Concordance.Proofs.Json.Reader
import Concordance.Proofs.Metadata.Codec
import Concordance.Proofs.Text.Utf8
import Concordance.Store.Config

/-!
# Configurations are read back

A storage finds the configuration that it was set up with in its file (`Config.ofBytes_toBytes`).
-/

namespace Concordance

open Json (Plain)

namespace Schema

theorem find?_typeJsonName (t : ColumnType) :
    allTypes.find? (typeJsonName · == typeJsonName t) = some t := by
  cases t <;> decide

theorem find?_aggregateJsonName (k : AggregateKind) :
    allAggregates.find? (aggregateJsonName · == aggregateJsonName k) = some k := by
  cases k <;> decide

theorem columnOfJson_columnToJson (c : Column) : columnOfJson (columnToJson c) = some c := by
  obtain ⟨name, type, aggregate⟩ := c
  have hfields : (columnToJson ⟨name, type, aggregate⟩).asFields
      ["name", "data_type", "aggregator"] =
      some [some (.text name), some (.text (typeJsonName type)), some (aggregate.elim .null
        fun a => .object [(aggregateJsonName a.kind, .text a.type)])] := by
    cases aggregate <;> rfl
  unfold columnOfJson
  rw [hfields]
  cases aggregate with
  | none =>
      simp [Json.requiredField, Json.asName, Json.asChoice, Json.asText, Json.optionalField,
        Json.asOption, find?_typeJsonName]
  | some a =>
      simp [Json.requiredField, Json.asName, Json.asChoice, Json.asText, Json.optionalField,
        Json.asOption, find?_typeJsonName, aggregateOfJson, find?_aggregateJsonName]

theorem ofJson_toJson (s : Schema) : ofJson s.toJson = some s := by
  have hcolumns : ∀ l : List Column, (l.map columnToJson).mapM columnOfJson = some l := by
    intro l
    induction l with
    | nil => rfl
    | cons c rest ih =>
        rw [List.map_cons, List.mapM_cons, columnOfJson_columnToJson, ih]
        rfl
  unfold ofJson toJson
  simp only [Json.asList, hcolumns, Option.bind_eq_bind, Option.bind_some, ofColumns_columns]
  rfl

theorem plain_toJson (s : Schema) : Plain 3 s.toJson := by
  refine .array ?_
  intro v hv
  obtain ⟨⟨name, type, aggregate⟩, -, rfl⟩ := List.mem_map.mp hv
  refine .object ?_
  intro m hm
  simp only [List.mem_cons, List.not_mem_nil, or_false] at hm
  rcases hm with rfl | rfl | rfl
  · exact .text 1 name
  · exact .text 1 _
  · cases aggregate with
    | none => exact .null 1
    | some a =>
        refine .object ?_
        intro m hm
        rw [List.mem_singleton.mp hm]
        exact .text 0 a.type

end Schema

namespace Config

/-- The sizes of a configuration are words of 64 bits. -/
structure InRange (c : Config) : Prop where
  cacheSize : c.cacheSize < Wire.word64
  historyLimit : c.historyLimit < Wire.word64

theorem encodingOfJson_title (e : Statistics.Encoding) :
    encodingOfJson (.text e.title) = some e := by
  cases e <;> rfl

theorem ofJson_toJson {c : Config} (h : c.InRange) : ofJson c.toJson = some c := by
  obtain ⟨path, cacheSize, accessControl, schema, encoding, historyLimit⟩ := c
  obtain ⟨hcache, hhistory⟩ := h
  have hfields : (toJson ⟨path, cacheSize, accessControl, schema, encoding, historyLimit⟩).asFields
      ["path", "cache_size", "acl", "metadata", "statsproc", "statistics_history"] =
      some [some (.ofOption (path.map .text)), some (.ofNat cacheSize), some (.bool accessControl),
        some schema.toJson, some (.text encoding.title), some (.ofNat historyLimit)] := rfl
  have hpath : Json.asOption Json.asText (.ofOption (path.map .text)) = some path := by
    cases path <;> rfl
  dsimp only at hcache hhistory
  unfold ofJson
  dsimp only
  rw [hfields]
  simp [Json.optionalField, hpath, Json.asNat, Json.ofNat, hcache, hhistory, Json.asBool,
    Schema.ofJson_toJson, encodingOfJson_title]

theorem plain_toJson {c : Config} (h : c.InRange) : Plain 4 c.toJson := by
  have hword : Wire.word64 = 2 * Number.half64 := by decide
  refine .object ?_
  intro m hm
  simp only [List.mem_cons, List.not_mem_nil, or_false] at hm
  rcases hm with rfl | rfl | rfl | rfl | rfl | rfl
  · cases c.path with
    | none => exact .null 3
    | some path => exact .text 3 path
  · exact .natural 3 (hword ▸ h.cacheSize)
  · exact .bool 3 c.accessControl
  · exact c.schema.plain_toJson
  · exact .text 3 c.encoding.title
  · exact .natural 3 (hword ▸ h.historyLimit)

/-- A configuration is read back from the bytes of its file. -/
theorem ofBytes_toBytes {c : Config} (h : c.InRange) :
    (Json.readBytes? (Wire.textBytes (Json.renderPretty c.toJson))).bind ofJson = some c := by
  unfold Json.readBytes?
  rw [Text.Utf8.repair_textBytes, Json.read?_renderPretty (plain_toJson h) (by decide),
    Option.bind_some, ofJson_toJson h]

end Config

end Concordance
