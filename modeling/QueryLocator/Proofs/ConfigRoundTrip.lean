import QueryLocator.Proofs.ConfigData
import QueryLocator.Proofs.ConfigLoading

/-! # Configurations read back as they were written

What JSON can hold of a configuration is read back as it was: the text of its JSON form is read as
that form (`Json.readText_render`), and the form is fitted to the configuration
(`Datum.config?_toJson`).  A configuration that was loaded, in whatever format, is therefore loaded
again from what is written for it.
-/
namespace QueryLocator

open Json

/-! ## Integers in the JSON form -/

namespace Json

theorem everywhere_isIntegral_object {members : List (String × Json)}
    (h : ∀ member ∈ members, member.2.everywhere isIntegral = true) :
    (object members).everywhere isIntegral = true := by
  rw [everywhere, membersEverywhere_iff.mpr h]
  rfl

end Json

theorem Schema.isIntegral_toJson (schema : Schema) : schema.toJson.everywhere isIntegral = true := by
  cases schema with
  | path source => rfl
  | paths sources =>
    have hsources : itemsEverywhere isIntegral (sources.map .string) = true := by
      refine itemsEverywhere_iff.mpr fun item hitem => ?_
      obtain ⟨source, -, rfl⟩ := List.mem_map.mp hitem
      rfl
    rw [toJson, everywhere, hsources]
    rfl

theorem Project.isIntegral_toJson (project : Project)
    (h : ∀ value ∈ project.extensionValues, value.everywhere isIntegral = true) :
    project.toJson.everywhere isIntegral = true := by
  obtain ⟨schema, explorer, extensions⟩ := project
  refine everywhere_isIntegral_object fun member hmember => ?_
  rcases List.mem_append.mp hmember with hmember | hmember
  · simp only [List.mem_cons, List.not_mem_nil, or_false] at hmember
    rcases hmember with rfl | rfl
    · exact schema.isIntegral_toJson
    · rfl
  · cases extensions with
    | none => simp at hmember
    | some kept =>
      obtain rfl := List.mem_singleton.mp hmember
      exact everywhere_isIntegral_object fun entry hentry => h _ (List.mem_map_of_mem hentry)

/-- The numbers in the form of a configuration are those that other tools keep in it. -/
theorem Config.isIntegral_toJson (config : Config)
    (h : ∀ value ∈ config.extensionValues, value.everywhere isIntegral = true) :
    config.toJson.everywhere isIntegral = true := by
  have hproject (entry : String × Project) (hentry : entry ∈ config.projects) :
      entry.2.toJson.everywhere isIntegral = true :=
    entry.2.isIntegral_toJson fun value hvalue => h value (mem_extensionValues hentry hvalue)
  cases config with
  | single project => exact hproject (defaultName, project) (List.mem_singleton.mpr rfl)
  | multi projects =>
    refine everywhere_isIntegral_object fun member hmember => ?_
    obtain rfl := List.mem_singleton.mp hmember
    refine everywhere_isIntegral_object fun member hmember => ?_
    obtain ⟨entry, hentry, rfl⟩ := List.mem_map.mp hmember
    exact hproject entry hentry

/-! ## There and back -/

/-- A value that passes a test is read from its compact text. -/
theorem Json.readText_render {value : Json} (type : String) (test : Json → Bool)
    (hintegral : value.everywhere isIntegral = true) (hnesting : value.nesting ≤ nestingLimit)
    (htest : test value = true) :
    JsonShape.readText (JsonShape.oneOf type test) value.render.toList = .ok value := by
  have hread := readValue_compact value hintegral hnesting endsNumber_nil
  rw [List.append_nil] at hread
  have hend : readEnd [] = .ok () := rfl
  rw [render, String.toList_ofList]
  simp [JsonShape.readText, JsonShape.oneOf, hread, htest, JsonShape.fits, hend, bind, Except.bind,
    pure, Except.pure]

namespace Config

/-- A configuration comes back from its text. -/
theorem decode_encode {config : Config}
    (hunique : ∀ value ∈ config.extensionValues, value.everywhere hasUniqueKeys = true)
    (hintegral : ∀ value ∈ config.extensionValues, value.everywhere isIntegral = true)
    (hnesting : config.toJson.nesting ≤ nestingLimit) :
    Wire.decode Config (Wire.encode config) = .ok config := by
  have hconfig : config.toJson.datum.config? = some config := Datum.config?_toJson config hunique
  have hread : JsonShape.readText (Wire.shape Config) (Wire.encode config).toList =
      .ok config.toJson :=
    readText_render "ConsoleConfig" (fun json => json.datum.config?.isSome)
      (config.isIntegral_toJson hintegral) hnesting (congrArg Option.isSome hconfig)
  have hofJson : Wire.ofJson? config.toJson = some config := hconfig
  rw [Wire.decode, hread]
  dsimp only
  rw [hofJson]

/-- The name of a file that ends in `json` stands for JSON. -/
theorem configFormat?_of_json {path : Path} (h : path.extension = "json".toList) :
    path.configFormat? = some .json := by
  rw [Path.configFormat?, h]
  rfl

/-- **What JSON can hold of a configuration is read back as it was written.**  The numbers that other
tools keep in it have to be integers of 64 bits, and the brackets of its JSON form must not nest
more than 127 levels deep.  The objects that other tools keep have no key twice; in a configuration
that was loaded, from a file in whatever format, they never do, and it is loaded again from a file
in JSON. -/
theorem encode_reads_back (config : Config)
    (hintegral : ∀ value ∈ config.extensionValues, value.everywhere isIntegral = true)
    (hnesting : config.toJson.nesting ≤ 127) :
    ((∀ value ∈ config.extensionValues, value.everywhere hasUniqueKeys = true) →
      Wire.decode Config (Wire.encode config) = .ok config) ∧
    ∀ (path jsonPath : Path) (text : String), read path text = .ok config →
      jsonPath.extension = "json".toList → read jsonPath (Wire.encode config) = .ok config := by
  refine ⟨fun hunique => decode_encode hunique hintegral hnesting, ?_⟩
  intro path jsonPath text hloaded hjson
  obtain ⟨format, -, htext, husable⟩ := read_eq_ok_iff.mp hloaded
  -- no key comes twice in what was fitted to plain data
  obtain ⟨datum, hdatum⟩ := exists_datum_of_ofText htext
  have hdecode := decode_encode (fun _ => Datum.hasUniqueKeys_of_config? hdatum) hintegral hnesting
  exact read_eq_ok_iff.mpr
    ⟨.json, configFormat?_of_json hjson, mapError_eq_ok_iff.mpr hdecode, husable⟩

/-- Two projects in YAML: one keeps the least integer and an empty object, the other an empty map. -/
theorem encode_reads_back_from_yaml :
    ∃ config, read ⟨"a/.graphqlrc"⟩ ("projects:\n b:\n  schema: [é]\n  extensions:\n   " ++
        "k: [-9223372036854775808, \x7b\x7d]\n a:\n  schema: '\"'\n  extensions: \x7b\x7d") =
        .ok config ∧
      config.projects.map Prod.fst = ["a", "b"] ∧ config.extensionValues.length = 1 ∧
      (∀ value ∈ config.extensionValues, value.everywhere isIntegral = true) ∧
      config.toJson.nesting ≤ 127 ∧
      Wire.decode Config (Wire.encode config) = .ok config ∧
      read ⟨"b.json"⟩ (Wire.encode config) = .ok config := by
  generalize htext : "projects:\n b:\n  schema: [é]\n  extensions:\n   " ++
      "k: [-9223372036854775808, \x7b\x7d]\n a:\n  schema: '\"'\n  extensions: \x7b\x7d" = text
  have htests : (read ⟨"a/.graphqlrc"⟩ text).toOption.any (fun config =>
      (config.projects.map Prod.fst == ["a", "b"] && config.extensionValues.length == 1) &&
        (config.extensionValues.all (everywhere isIntegral) &&
          config.extensionValues.all (everywhere hasUniqueKeys) &&
          decide (config.toJson.nesting ≤ 127))) = true := by
    rw [← htext]
    decide +kernel
  cases hread : read ⟨"a/.graphqlrc"⟩ text with
  | error failure => simp [hread, Except.toOption] at htests
  | ok config =>
    simp only [hread, Except.toOption, Option.any_some, Bool.and_eq_true, beq_iff_eq,
      decide_eq_true_eq, List.all_eq_true] at htests
    obtain ⟨⟨hnames, hkept⟩, ⟨hintegral, hunique⟩, hnesting⟩ := htests
    have h := encode_reads_back config hintegral hnesting
    exact ⟨config, rfl, hnames, hkept, hintegral, hnesting, h.1 hunique,
      h.2 _ _ _ hread (by decide)⟩

end Config
end QueryLocator
