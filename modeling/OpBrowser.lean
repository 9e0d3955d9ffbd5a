import OpBrowser.Verification.Aio.Order
import OpBrowser.Verification.Cookie.Addresses
import OpBrowser.Verification.Cookie.Answers
import OpBrowser.Verification.Cookie.Lookup
import OpBrowser.Verification.Cookie.Table
import OpBrowser.Verification.Descriptors.Inheritance
import OpBrowser.Verification.Dispatch.Order
import OpBrowser.Verification.Dispatch.Waits
import OpBrowser.Verification.DomainName.Equivalence
import OpBrowser.Verification.DomainName.SameLabel
import OpBrowser.Verification.Downloads.Saved
import OpBrowser.Verification.Kernel.Announcements
import OpBrowser.Verification.Kernel.Cache
import OpBrowser.Verification.Kernel.Consistency
import OpBrowser.Verification.Kernel.Grace
import OpBrowser.Verification.Kernel.Handshake
import OpBrowser.Verification.Kernel.Interference
import OpBrowser.Verification.Kernel.Isolation
import OpBrowser.Verification.Kernel.Leaks
import OpBrowser.Verification.Kernel.Relay
import OpBrowser.Verification.Kernel.Syscalls
import OpBrowser.Verification.Network.Requests
import OpBrowser.Verification.Network.Uploads
import OpBrowser.Verification.NewUrlMsg.Readers
import OpBrowser.Verification.ObjectStore.History
import OpBrowser.Verification.ObjectStore.Secrets
import OpBrowser.Verification.Replies.Informed
import OpBrowser.Verification.Response.Whole
import OpBrowser.Verification.Storage.Downloads
import OpBrowser.Verification.Traffic.Apart
import OpBrowser.Verification.Ui.Announced
import OpBrowser.Verification.Ui.Frames
import OpBrowser.Verification.Ui.Menus
import OpBrowser.Verification.Ui.Restart
import OpBrowser.Verification.Ui.Visited
import OpBrowser.Verification.WebPage.Origin
import OpBrowser.Verification.Wire.Languages
