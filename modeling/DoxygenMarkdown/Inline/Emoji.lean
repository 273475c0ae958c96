import DoxygenMarkdown.Text.Blank

/-!
# Emoji by name

The names that a comment may use, each with the characters that show it. Some symbols need a
variation selector after them to be shown in colour, so an emoji is a text, not a character.
-/

namespace DoxygenMarkdown.Emoji

/-- The emoji and their names. -/
def table : List (String × String) := [
  ("+1", "👍"), ("-1", "👎"), ("100", "💯"), ("angry", "😠"), ("apple", "🍎"),
  ("bangbang", "‼️"), ("bell", "🔔"), ("blush", "😊"), ("bomb", "💣"), ("book", "📖"),
  ("books", "📚"), ("boom", "💥"), ("broken_heart", "💔"), ("bug", "🐛"), ("bulb", "💡"),
  ("calendar", "📆"), ("check", "✔️"), ("clap", "👏"), ("clipboard", "📋"), ("cloud", "☁️"),
  ("confused", "😕"), ("construction", "🚧"), ("cool", "🆒"), ("cry", "😢"), ("dog", "🐶"),
  ("exclamation", "❗"), ("eyes", "👀"), ("fire", "🔥"), ("gear", "⚙️"), ("ghost", "👻"),
  ("grin", "😁"), ("grinning", "😀"), ("hammer", "🔨"), ("heart", "❤️"),
  ("heavy_check_mark", "✔️"), ("hourglass", "⌛"), ("information_source", "ℹ️"),
  ("joy", "😂"), ("key", "🔑"), ("laughing", "😆"), ("link", "🔗"), ("lock", "🔒"), ("mag", "🔍"),
  ("memo", "📝"), ("no_entry", "⛔"), ("ok_hand", "👌"), ("package", "📦"), ("pencil2", "✏️"),
  ("point_right", "👉"), ("pray", "🙏"), ("pushpin", "📌"), ("question", "❓"),
  ("recycle", "♻️"), ("relieved", "😌"), ("rocket", "🚀"), ("scream", "😱"), ("shield", "🛡️"),
  ("skull", "💀"), ("smile", "😄"), ("smiley", "😃"), ("sparkles", "✨"), ("star", "⭐"),
  ("stop_sign", "🛑"), ("sunglasses", "😎"), ("tada", "🎉"), ("thinking", "🤔"),
  ("thumbsdown", "👎"), ("thumbsup", "👍"), ("turtle", "🐢"), ("warning", "⚠️"), ("wave", "👋"),
  ("white_check_mark", "✅"), ("wink", "😉"), ("wrench", "🔧"), ("x", "❌"), ("zap", "⚡")]

/-- What stands for an emoji that has no such name. -/
def unknown : Text := "Unknown emoji".toList

/-- A name without the colons that may stand around it. -/
def bareName (word : Text) : Text := Text.dropEndWhile (· == ':') (word.dropWhile (· == ':'))

/-- The emoji that a word names. -/
def named (word : Text) : Text :=
  match table.find? fun entry => entry.1.toList = bareName word with
  | some entry => entry.2.toList
  | none => unknown

end DoxygenMarkdown.Emoji
