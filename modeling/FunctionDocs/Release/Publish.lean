import FunctionDocs.App.Info
import FunctionDocs.Json.Field
import FunctionDocs.Release.Changelog
import FunctionDocs.World

/-!
# Publishing a release

The help goes to the wiki, the version gets a tag, the release is announced with its installer, and a discussion is opened with
the part of the changelog that belongs to it.
-/

namespace FunctionDocs.Release

open WorldM App

def project : Text := "CppCodeDoc"

def page (name : Text) : Text := "https://github.com/" ++ author ++ "/" ++ project ++ "/" ++ name

def installerPath : Text := ".\\installer\\CppCodeDoc_" ++ version ++ "_Installer.exe"

def sendWiki (token owner name help tag : Text) : WorldM Unit := do
  let dir := (← get).scratch
  print "Cloning wiki repo..."
  let _ ← startChecked
    ["git", "clone", "https://" ++ token ++ "@github.com/" ++ owner ++ "/" ++ name ++ ".wiki.git", dir] none none
  print ("Copying " ++ help ++ " to " ++ Path.join dir "Home.md" ++ "...")
  let content ← look (·.readText help)
  print "Adding changes..."
  let _ ← startChecked ["git", "add", "Home.md"] (some dir) (some content)
  print "Committing changes..."
  let _ ← startChecked ["git", "commit", "-m", "Update help file on release " ++ tag] (some dir) none
  print "Pushing changes..."
  let _ ← startChecked ["git", "push"] (some dir) none
  print "Wiki updated successfully."

/-- Puts the help into the wiki; a release goes on if that fails. -/
def updateWiki (token owner name help tag : Text) : WorldM Unit :=
  recover (sendWiki token owner name help tag) fun
    | .processFailed command code =>
      print ("⚠️ Warning: Failed to update wiki. This will not stop the release process.\nDetails: " ++
        (Failure.processFailed command code).message)
    | f => print ("⚠️ Warning: Unexpected error while updating wiki: " ++ f.message)

def isTagChar (c : Char) : Bool := isWordChar c || List.elem c ['.', '-', '/']

def createTag (tag : Text) : WorldM Unit := do
  if tag.isEmpty || !tag.all isTagChar then fail (.badTag tag)
  recover (do
    let _ ← startChecked ["git", "tag", tag] none none
    print ("Tag " ++ tag ++ " created local.")
    let _ ← startChecked ["git", "push", "origin", tag] none none
    print ("Tag " ++ tag ++ " pushed to remote repository.")) fun
      | .processFailed command code =>
        print ("Error during creation or pushing of TAG-Release: " ++ (Failure.processFailed command code).message)
      | f => fail f

def announcement (version : Text) : Text :=
  Text.unlines (([
    [],
    "<img src=\"img/Banner_CppCodeDoc.png\" alt=\"Banner\" height=\"150\" />",
    [],
    "🚀 **CppCodeDoc Version " ++ version ++ " Released!**",
    [],
    "---",
    [],
    "## 🔄 Upgrade Instructions",
    [],
    "- Close CppCodeDoc before starting the update.",
    "- Backup your important configuration files before proceeding.",
    [],
    "### If you use the Installer:",
    "- Run the new installer with admin permissions and follow the prompts.",
    "- After installation, restart the application as usual."] : List Text) ++
    ([
    [],
    "### If you update via Git repository:",
    "- Pull the latest changes with `git pull` or reclone the repository.",
    "- Run the GUI version with:  ",
    "  `python CppCodeDoc.py`  ",
    "- Or run the CLI version with:  ",
    "  `python CppCodeDoc.py --NoGui`  ",
    [],
    "---",
    [],
    "## 📚 Useful Links",
    "[![Documentation](https://img.shields.io/badge/-Documentation-blue?style=for-the-badge&logo=read-the-docs)](" ++ page "wiki" ++ ")",
    "[![Issues](https://img.shields.io/badge/-Issue_Tracker-orange?style=for-the-badge&logo=github)](" ++ page "issues" ++ ")",
    "[![Download](https://img.shields.io/badge/-Latest_Release-green?style=for-the-badge&logo=github)](" ++ page "releases/latest" ++ ")",
    "[![Discussions](https://img.shields.io/badge/-Discussions-purple?style=for-the-badge&logo=github)](" ++ page "discussions/categories/general" ++ ")",
    "---",
    [],
    "🙏 Thanks to all contributors and supporters! 💙",
    []] : List Text))

def patience : Value := .int 10

def textFields (fs : List (Text × Text)) : Value := .obj (fs.map fun f => (f.1, .str f.2))

def createRelease (version token installer : Text) : WorldM Unit := do
  let headers := textFields [("Authorization", "token " ++ token), ("Accept", "application/vnd.github+json")]
  let data := Value.obj [("tag_name", .str version), ("name", .str ("Release " ++ version)),
    ("body", .str (announcement version)), ("draft", .bool false), ("prerelease", .bool false)]
  let url := "https://api.github.com/repos/" ++ author ++ "/" ++ project ++ "/releases"
  let (status, json, text) ← request "POST" url headers data none patience
  if status != 201 then
    print ("❌ Error on creating GitHub release: " ++ Text.ofInt status ++ " – " ++ text)
  else
    print ("✅ GitHub release " ++ version ++ " successfully created.")
    let id ← settle (json.fieldOf "id")
    print ("GitHub release-id: " ++ id.display)
    let upload ← match ← settle (json.fieldOf "upload_url") with
      | .str u => pure (u.takeWhile (· != '{'))
      | other => fail (.noOperation other.kind "split")
    let name := Path.base installer
    let bytes ← look (·.readBytes installer)
    let headers := textFields [("Authorization", "token " ++ token), ("Content-Type", "application/octet-stream")]
    let (status, _, text) ←
      request "POST" (upload ++ "?name=" ++ name) headers .null (some (Bytes.toTextLossy bytes)) patience
    if status == 201 then print ("✅ File '" ++ name ++ "' successfully uploaded to release.")
    else print ("❌ Error uploading asset: " ++ Text.ofInt status ++ " – " ++ text)

def runQuery (query token : Value) (inputs : Value) : WorldM Value := do
  let headers := textFields [("Authorization", "Bearer " ++ token.display), ("Content-Type", "application/json")]
  let inputs := if inputs.isTrue then inputs else .obj []
  let (status, json, text) ←
    request "POST" "https://api.github.com/graphql" headers (.obj [("query", query), ("variables", inputs)]) none patience
  if status != 200 then fail (.queryFailed status text) else return json

def repositoryQuery : Text :=
  Text.unlines [
    [],
    "    query ($owner: String!, $name: String!) \x7b",
    "      repository(owner: $owner, name: $name) \x7b",
    "        id",
    "      \x7d",
    "    \x7d",
    "    "]

def categoryQuery : Text :=
  Text.unlines [
    [],
    "    query ($owner: String!, $name: String!) \x7b",
    "      repository(owner: $owner, name: $name) \x7b",
    "        discussionCategories(first: 10) \x7b",
    "          nodes \x7b",
    "            id",
    "            name",
    "          \x7d",
    "        \x7d",
    "      \x7d",
    "    \x7d",
    "    "]

def discussionQuery : Text :=
  Text.unlines [
    [],
    "    mutation ($repoId: ID!, $categoryId: ID!, $title: String!, $body: String!) \x7b",
    "      createDiscussion(input: \x7b",
    "        repositoryId: $repoId,",
    "        categoryId: $categoryId,",
    "        title: $title,",
    "        body: $body",
    "      \x7d) \x7b",
    "        discussion \x7b",
    "          url",
    "        \x7d",
    "      \x7d",
    "    \x7d",
    "    "]

def repositoryIn (answer : Value) : Except Failure Value := answer.follow ["data", "repository", "id"]

def lowerOf : Value → Except Failure Text
  | .str t => .ok (Text.toLower t)
  | other => .error (.noOperation other.kind "lower")

/-- The identifier of the first category with a name, where case does not count. -/
def categoryAmong (name : Value) : List Value → Except Failure Value
  | [] => .error (.noCategory name.display)
  | c :: cs => do
    if (← lowerOf (← c.fieldOf "name")) == (← lowerOf name) then c.fieldOf "id" else categoryAmong name cs

def categoryIn (answer name : Value) : Except Failure Value := do
  categoryAmong name (← (← answer.follow ["data", "repository", "discussionCategories", "nodes"]).itemsOf)

def repositoryVariables (owner name : Value) : Value := .obj [("owner", owner), ("name", name)]

def repositoryId (owner name token : Value) : WorldM Value := do
  settle (repositoryIn (← runQuery (.str repositoryQuery) token (repositoryVariables owner name)))

def categoryId (owner name token category : Value) : WorldM Value := do
  settle (categoryIn (← runQuery (.str categoryQuery) token (repositoryVariables owner name)) category)

def createDiscussion (repository category token title text : Value) : WorldM Value := do
  let answer ← runQuery (.str discussionQuery) token
    (.obj [("repoId", repository), ("categoryId", category), ("title", title), ("body", text)])
  settle (answer.follow ["data", "createDiscussion", "discussion", "url"])

/-- What the changelog says of this version, as it is announced. -/
def newsOfVersion : WorldM Text :=
  recover (do
    let text ← look (·.readText "changelog.md")
    return Changelog.announced (← settle (Changelog.sectionFor version text))) fun f => do
      print ("⚠️ " ++ f.message)
      return "*No changelog entry found.*"

def discussionText (news : Text) : Text :=
  "🚀 We're excited to announce the release of **CppCodeDoc** version " ++ version ++ "!\n\n## 🆕 Changelog\n\n" ++ news ++
  "\n\nThanks to everyone contributing, using, and supporting this project! 💙\n\n[![Release](https://img.shields.io/badge/release-v" ++
  version ++ "-brightgreen)](" ++ page ("releases/tag/" ++ version) ++ ")"

def announceVersion (token : Text) : WorldM Unit :=
  recover (do
    print "Get Repository-ID ..."
    let repository ← repositoryId (.str author) (.str project) (.str token)
    print "Get Category-ID ..."
    let category ← categoryId (.str author) (.str project) (.str token) (.str "General")
    print "Create Discussion ..."
    let news ← newsOfVersion
    let url ← createDiscussion repository category (.str token) (.str ("Release of CppCodeDoc Version " ++ version))
      (.str (discussionText news))
    print ("✅ Discussion created: " ++ url.display)) fun f => print ("❌ ERROR: " ++ f.message)

/-- Publishes this version; the installer has to be there. -/
def publish (token : Text) : WorldM Unit := do
  if !(← get).tree.isFile installerPath then
    print ("❌ Installer file not found: " ++ installerPath)
    print "➡️  Please build the installer before running this release script."
    exit 1
  updateWiki token author project "./help.md" version
  createTag version
  createRelease version token installerPath
  announceVersion token

end FunctionDocs.Release
