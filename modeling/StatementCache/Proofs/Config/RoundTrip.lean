import StatementCache.Config.CacheConfig
import StatementCache.Proofs.Json.Shapes

/-! Settings and descriptions of caches are read back from their JSON text. -/
namespace StatementCache

open Json Reader

namespace Json

variable {α σ : Type}

theorem fills_once {member : String → σ → Reader σ} {name : String} {item : Reader α} {j : Json}
    {a : α} {d : σ} {f : Option α → σ} (reads : Reads item j a)
    (single : member name d = do return f (← once none item)) :
    Fills member (name, j) d (f (some a)) := by
  intro rest closed
  dsimp only
  rw [single]
  exact map_ok (map_ok (reads.run rest closed) some) f

theorem read_render {reader : Reader α} {j : Json} {a : α} (run : reader j.write = .ok (a, [])) :
    Json.read reader j.render = .ok a := by
  rw [Json.read, render, String.toList_ofList, run]
  rfl

end Json

namespace LocalCacheScope

theorem reads_reader (s : LocalCacheScope) : Reads reader (.string s.keyword) s where
  opens := ⟨rfl, by decide⟩
  run rest _ := by
    rw [write, quote_append]
    change (stringBody >>= ofKeyword) (s.keyword.toList.flatMap escape ++ '"' :: rest) = _
    rw [bind_ok (stringBody_quoted s.keyword rest)]
    cases s <;> rfl

end LocalCacheScope

namespace Settings

theorem fillsAll (s : Settings) :
    FillsAll member [("cacheEnabled", .bool s.cacheEnabled),
      ("localCacheScope", .string s.localCacheScope.keyword),
      ("environmentId", Json.ofOption .string s.environmentId)] ⟨none, none, none⟩
      ⟨some s.cacheEnabled, some s.localCacheScope, some s.environmentId⟩ :=
  .cons (fills_once (reads_bool _) rfl) <|
    .cons (fills_once s.localCacheScope.reads_reader rfl) <|
      .cons (fills_once (reads_optional reads_string present_string _) rfl) <| .nil _

theorem ofJson_render (s : Settings) : ofJson s.toJson.render = .ok s := by
  have run : reader s.toJson.write = .ok (s, []) := by
    rw [toJson, write]
    exact map_ok (members_read s.fillsAll) Draft.complete
  rw [ofJson, read_render run]
  rfl

end Settings

namespace Properties

variable {name value : String}

theorem insertEntry_of_greater {entries : List (String × String)}
    (greater : ∀ e ∈ entries, e.1 < name) :
    insertEntry name value entries = entries ++ [(name, value)] := by
  induction entries with
  | nil => rfl
  | cons e entries ih =>
    obtain ⟨before, others⟩ := List.forall_mem_cons.mp greater
    rw [insertEntry, if_neg (String.lt_asymm before), if_neg (String.ne_of_lt before).symm,
      ih others, List.cons_append]

def members (entries : List (String × String)) : List (String × Json) :=
  entries.map fun (name, value) => (name, .string value)

def member (name : String) (p : Properties) : Reader Properties :=
  return p.insert name (← memberValue Reader.string)

theorem fillsAll (p q : Properties) (rest : List (String × String))
    (split : q.entries = p.entries ++ rest) : FillsAll member (members rest) p q := by
  induction rest generalizing p with
  | nil =>
    obtain ⟨entries, sorted⟩ := p
    obtain ⟨entries', sorted'⟩ := q
    obtain rfl : entries' = entries := split.trans (List.append_nil entries)
    exact .nil _
  | cons e rest ih =>
    have ordered := q.sorted
    rw [split, List.pairwise_append] at ordered
    have last : (p.insert e.1 e.2).entries = p.entries ++ [e] :=
      insertEntry_of_greater fun a mem => ordered.2.2 a mem e List.mem_cons_self
    have fills : Fills member (e.1, .string e.2) p (p.insert e.1 e.2) := fun text closed =>
      map_ok ((reads_string e.2).run text closed) (p.insert e.1 ·)
    refine .cons fills (ih (p.insert e.1 e.2) ?_)
    rw [last, split, List.append_assoc, List.singleton_append]

theorem reads_propertiesReader (p : Properties) :
    Reads CacheConfig.propertiesReader (.object (members p.entries)) p where
  opens := by
    rw [write]
    exact ⟨rfl, by decide⟩
  run rest _ := by
    rw [write, List.cons_append, List.cons_append, List.append_assoc, List.singleton_append]
    exact members_read (fillsAll empty p p.entries rfl)

end Properties

namespace CacheConfig

theorem reads_optional_word (n : Option UInt64) :
    Reads (Reader.optional word) (Json.ofOption wordJson n) n :=
  reads_optional reads_word (fun n => present_integer n.toNat) n

theorem fillsAll (c : CacheConfig) :
    FillsAll member [("id", .string c.id),
        ("implementation", Json.ofOption .string c.implementation),
        ("eviction", .array (c.eviction.map .string)),
        ("size", Json.ofOption wordJson c.size),
        ("flushInterval", Json.ofOption wordJson c.flushInterval),
        ("readOnly", .bool c.readOnly),
        ("blocking", .bool c.blocking),
        ("blockingTimeout", Json.ofOption wordJson c.blockingTimeout),
        ("properties", .object (Properties.members c.properties.entries))] Draft.empty
      ⟨some c.id, some c.implementation, some c.eviction, some c.size, some c.flushInterval,
        some c.readOnly, some c.blocking, some c.blockingTimeout, some c.properties⟩ :=
  .cons (fills_once (reads_string _) rfl) <|
    .cons (fills_once (reads_optional reads_string present_string _) rfl) <|
      .cons (fills_once (reads_array fun s _ => reads_string s) rfl) <|
        .cons (fills_once (reads_optional_word _) rfl) <|
          .cons (fills_once (reads_optional_word _) rfl) <|
            .cons (fills_once (reads_bool _) rfl) <|
              .cons (fills_once (reads_bool _) rfl) <|
                .cons (fills_once (reads_optional_word _) rfl) <|
                  .cons (fills_once c.properties.reads_propertiesReader rfl) <| .nil _

theorem ofJson_render (c : CacheConfig) : ofJson c.toJson.render = .ok c := by
  have run : reader c.toJson.write = .ok (c, []) := by
    rw [toJson, write]
    exact bind_ok (members_read c.fillsAll)
  rw [ofJson, read_render run]
  rfl

end CacheConfig

/-- Whatever texts and numbers are in them, descriptions of caches and settings are read back from
the text that is written for them. -/
theorem config_round_trip :
    (∀ c : CacheConfig, CacheConfig.ofJson c.toJson.render = .ok c) ∧
      ∀ s : Settings, Settings.ofJson s.toJson.render = .ok s :=
  ⟨CacheConfig.ofJson_render, Settings.ofJson_render⟩

end StatementCache
