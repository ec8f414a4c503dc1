import Himitsu.Services.Calls

/-!
# The tag routes

Model of `registerTagRoutes` of `apps/api/src/index.ts`: creating, changing, merging and deleting a
tag of an organization. A route runs alone on the tables; one that fails leaves them as they are.
-/

set_option autoImplicit false

namespace Himitsu.Api

open JsString Crypto Database Services Transactions

inductive TagError where
  | service (error : ServiceError)
  | api (statusCode : Nat) (code message : JsString)
  deriving DecidableEq, Repr

def tagNotFound (message : String) : TagError :=
  .api 404 (ofAscii "NOT_FOUND") (ofAscii message)

def invalidTag (message : String) : TagError :=
  .api 400 (ofAscii "INVALID_INPUT") (ofAscii message)

def tagName (name : JsString) : Except TagError JsString :=
  let normalized := trim name
  if normalized.length < 1 ∨ normalized.length > 80 then
    .error (invalidTag "Tag name must be between 1 and 80 characters")
  else .ok normalized

/-- `toUpperCase` of a colour, which has hexadecimal digits only. -/
def upperColor (color : JsString) : JsString :=
  color.map fun c => if Secrets.isLower c then c - 0x20 else c

inductive TagCall where
  | create (id : Uuid) (name color : JsString)
  | update (tagId : Uuid) (name color : Option JsString)
  | merge (tagId targetTagId : Uuid)
  | delete (tagId : Uuid)

variable {wrapper : KeyWrapper}

def storedName (name : JsString) : Except TagError JsString := do
  let name ← tagName name
  (storedText name).mapError (.service ∘ .sql)

def createTag (db : Db wrapper) (id : Uuid) (name color : JsString) :
    Except TagError (Tag × Db wrapper) := do
  let name ← storedName name
  if db.tags.any fun tag => tag.id = id || tag.name = name then
    .error (.service (.sql .uniqueViolation))
  else
    let tag : Tag := ⟨id, name, upperColor color⟩
    .ok (tag, { db with tags := db.tags ++ [tag] })

/-- The check of the name comes before the row is looked up. -/
def updateTag (db : Db wrapper) (tagId : Uuid) (name color : Option JsString) :
    Except TagError (Tag × Db wrapper) := do
  let name ← name.mapM storedName
  match db.tags.find? (·.id = tagId) with
  | none => .error (tagNotFound "Tag not found")
  | some tag =>
    let after : Tag := ⟨tag.id, name.getD tag.name, (color.map upperColor).getD tag.color⟩
    if db.tags.any fun other => other.id ≠ tag.id && other.name = after.name then
      .error (.service (.sql .uniqueViolation))
    else .ok (after, { db with tags := updateWhere (·.id = tagId) (fun _ => after) db.tags })

/-- `DELETE FROM tags`, with the rows that it cascades to. -/
def dropTag (db : Db wrapper) (tagId : Uuid) : Db wrapper :=
  { db with
    tags := db.tags.filter (·.id ≠ tagId)
    projectTags := db.projectTags.filter (·.tagId ≠ tagId)
    secretTags := db.secretTags.filter (·.tagId ≠ tagId) }

/-- The two `INSERT … SELECT … ON CONFLICT DO NOTHING` of a merge. -/
def copyTag (db : Db wrapper) (tagId targetTagId : Uuid) : Db wrapper :=
  { db with
    projectTags := db.projectTags ++ (db.projectTags.filter fun row => row.tagId = tagId &&
      !db.projectTags.any fun other =>
        other.projectId = row.projectId && other.tagId = targetTagId).map fun row =>
      ⟨row.projectId, targetTagId⟩
    secretTags := db.secretTags ++ (db.secretTags.filter fun row => row.tagId = tagId &&
      !db.secretTags.any fun other =>
        other.secretId = row.secretId && other.tagId = targetTagId).map fun row =>
      ⟨row.secretId, targetTagId⟩ }

def mergeTag (db : Db wrapper) (tagId targetTagId : Uuid) : Except TagError (Tag × Db wrapper) :=
  if tagId = targetTagId then .error (invalidTag "A tag cannot be merged into itself")
  else
    match db.tags.find? (·.id = tagId), db.tags.find? (·.id = targetTagId) with
    | some _, some target => .ok (target, dropTag (copyTag db tagId targetTagId) tagId)
    | _, _ => .error (tagNotFound "Source or target tag not found")

def deleteTag (db : Db wrapper) (tagId : Uuid) : Except TagError (Tag × Db wrapper) :=
  match db.tags.find? (·.id = tagId) with
  | none => .error (tagNotFound "Tag not found")
  | some tag => .ok (tag, dropTag db tagId)

/-- What a route does after its check of the permission. -/
def TagCall.run (db : Db wrapper) : TagCall → Except TagError (Tag × Db wrapper)
  | .create id name color => createTag db id name color
  | .update tagId name color => updateTag db tagId name color
  | .merge tagId targetTagId => mergeTag db tagId targetTagId
  | .delete tagId => deleteTag db tagId

/-- The check of every one of the routes. -/
def authorizeTags (db : Db wrapper) (userId : Uuid) : Except TagError Unit :=
  (transact apply (authorizeUser userId none false .orgSettingsUpdate) db).1.mapError .service

/-- The answer of a tag route, and the tables after it. -/
def TagCall.respond (db : Db wrapper) (userId : Uuid) (call : TagCall) :
    Except TagError Tag × Db wrapper :=
  match authorizeTags db userId >>= fun _ => call.run db with
  | .ok (tag, after) => (.ok tag, after)
  | .error error => (.error error, db)

end Himitsu.Api
