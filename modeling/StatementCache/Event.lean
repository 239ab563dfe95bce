import StatementCache.Cache.Entry

/-! What caches and databases report of the operations done on them. -/
namespace StatementCache

/-- One operation. A tag is a remark that a setting makes. -/
inductive Event where
  | put (e : Entry)
  | get
  | remove
  | clear
  | tag (value : String)
  | query (sql : String) (parameters : List Value)
  | execute (sql : String) (parameters : List Value)
  | commit
  | rollback
  | close

def Event.display : Event → String
  | .put e => "put:" ++ e.short.render
  | .get => "get"
  | .remove => "remove"
  | .clear => "clear"
  | .tag value => "tag:" ++ value
  | .query sql parameters => "db.query " ++ sql ++ " " ++ (Value.list parameters).display
  | .execute sql parameters => "db.execute " ++ sql ++ " " ++ (Value.list parameters).display
  | .commit => "db.commit"
  | .rollback => "db.rollback"
  | .close => "db.close"

end StatementCache
